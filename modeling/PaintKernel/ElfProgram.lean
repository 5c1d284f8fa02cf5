import Mathlib
import PaintKernel.ElfSegments

set_option autoImplicit false

/-! What a program finds in its address space when the segment loop is done. -/

namespace PaintKernel

open ByteMemory RadixTree LinkedList

structure EmptyLower (root : Nat) (k : Kernel) (free : List Nat) : Prop where
  wellFormed : WellFormed UserPath k root free
  empty : LowerHalfEmpty k.mem root
  active : k.activeRoot = root

def Phdr.HasFileByte (h : Phdr) (offset : Nat) : Prop :=
  ∃ n < h.filesz, (h.offset + n) % 2 ^ 64 = offset

/-- Every segment has its bytes from the file, then zeroes, and nothing else was copied. -/
structure BytesLoaded (image : Mem) (s : Loader) : Prop where
  bytes : ∀ h ∈ loadable image, ∀ n < h.memsz, s.kernel.loadVirt (h.vaddr + n) =
    some (if n < h.filesz then fileByte image (h.offset + n) else 0)
  copied : ∀ des src writable, .memcpy des src writable ∈ s.log →
    ∃ h ∈ loadable image, h.HasFileByte src

/-- The bytes that follow the file part of a segment in the file, up to its size in memory,
are zero and belong to the file part of some segment. -/
def ZeroTail (image : Mem) (h : Phdr) : Prop :=
  ∀ n, h.filesz ≤ n → n < h.memsz → fileByte image (h.offset + n) = 0 ∧
    ∃ h' ∈ loadable image, h'.HasFileByte ((h.offset + n) % 2 ^ 64)

structure PagesLoaded (image : Mem) (root : Nat) (s : Loader) : Prop where
  mapped : ∀ v < 2 ^ 47, walk s.kernel.mem root v ≠ none ↔
    ∃ h ∈ loadable image, h.Covers (v / 4096)
  succeed : ∀ e ∈ s.log, e.Succeeds

def moduleOf (bytes : List (Nat × UInt8)) : Mem := fun n =>
  match bytes.find? (fun entry => entry.1 == n) with
  | none => 0
  | some entry => entry.2

def smallModule (filesz : UInt8) : Mem := moduleOf
  [(32, 64), (56, 1), (64, 1), (68, 6), (73, 1), (81, 1), (82, 0x40), (96, filesz), (104, 8),
    (0x100, 1), (0x101, 2), (0x102, 3), (0x103, 4), (0x104, 5), (0x105, 6), (0x106, 7), (0x107, 8)]

def adjacentModule : Mem := moduleOf
  [(32, 64), (56, 2), (64, 1), (68, 4), (82, 0x40), (105, 0x10),
    (120, 1), (124, 6), (137, 0x10), (138, 0x40), (160, 1)]

theorem bare_emptyLower : EmptyLower 0x1000 bareKernel barePages :=
  ⟨bare_wellFormed fun _ short => .inl short, bare_empty, by decide⟩

section Program

variable {image : Mem} {root : Nat} {k : Kernel} {free : List Nat} {s : Loader} {h : Phdr}

theorem EmptyLower.holds (ready : EmptyLower root k free) :
    HoldsUser root k free (fun _ => none) where
  wellFormed := ready.wellFormed
  small := smallLower_of_empty ready.empty
  granted := openLower_of_empty ready.empty
  active := ready.active
  absent := by
    intro v low _
    have absent := ready.empty (level4 v) (lowerHalf_of_lt low)
    simp [walk, absent]
  pages := by
    intro v low page present
    cases present

theorem mem_loadable (member : h ∈ loadable image) : h.Loads := by
  rw [loadable, List.mem_filter] at member
  exact of_decide_eq_true member.2

theorem loadProgram_eq (ready : EmptyLower root k free) :
    loadProgram image k = loadSegments image root (loadable image) ⟨k, []⟩ := by
  rw [loadProgram, ready.active, loadSegments_filter]
  rfl

/-- The last page the loops touch is the page after the segment when it ends on a page boundary. -/
theorem Phdr.touches_covers (loads : h.Loads) (page : Nat) :
    h.Touches page ↔ h.Covers page ∨ (h.vaddr + h.memsz) % 4096 = 0 ∧
      page = (h.vaddr + h.memsz) / 4096 := by
  have sized := loads.2
  unfold Touches Covers
  omega

theorem segmentPage_byte {n : Nat} (bound : n < h.memsz) :
    (segmentPage image h ((h.vaddr + n) / 4096)).byte ((h.vaddr + n) % 4096) =
      fileByte image (h.offset + n) := by
  simp only [segmentPage]
  rw [if_pos (by omega)]
  congr 2
  omega

theorem copied_iff {hs : List Phdr} {des src : Nat} {writable : Bool} :
    .memcpy des src writable ∈ hs.flatMap segmentEvents ↔
      ∃ h ∈ hs, ∃ n < h.memsz, des = h.vaddr + n ∧ src = (h.offset + n) % 2 ^ 64 ∧
        writable = true := by
  simp only [List.mem_flatMap, segmentEvents, mapEvents, copyEvents, protectEvents, List.mem_append,
    List.mem_map, List.mem_range, reduceCtorEq, and_false, exists_false, false_or, or_false,
    LoadEvent.memcpy.injEq]
  constructor
  · rintro ⟨h, member, n, bound, rfl, rfl, rfl⟩
    exact ⟨h, member, n, bound, rfl, rfl, rfl⟩
  · rintro ⟨h, member, n, bound, rfl, rfl, rfl⟩
    exact ⟨h, member, n, bound, rfl, rfl, rfl⟩

/-- A gap of one page between two segments keeps the pages of their loops apart. -/
theorem separate_of_gaps
    (gaps : (loadable image).Pairwise fun h h' => ∀ p q, h.Covers p → h'.Covers q →
      p + 1 < q ∨ q + 1 < p)
    (counted : ∀ h ∈ loadable image, h.pageCount ≤ 2 ^ 19) :
    Separate (loadable image) (fun _ => none) := by
  refine ⟨counted, fun _ _ _ _ => rfl, ?_⟩
  refine gaps.imp_of_mem ?_
  intro h h' member member' gap page touched touched'
  have sized := (mem_loadable member).2
  have sized' := (mem_loadable member').2
  have last : h.Covers ((h.vaddr + h.memsz - 1) / 4096) := by
    unfold Phdr.Covers
    omega
  have last' : h'.Covers ((h'.vaddr + h'.memsz - 1) / 4096) := by
    unfold Phdr.Covers
    omega
  rw [Phdr.touches_covers (mem_loadable member)] at touched
  rw [Phdr.touches_covers (mem_loadable member')] at touched'
  rcases touched with covered | ⟨boundary, rfl⟩ <;> rcases touched' with
    covered' | ⟨boundary', same⟩
  · have := gap _ _ covered covered'
    omega
  · have := gap _ _ covered last'
    omega
  · have := gap _ _ last covered'
    omega
  · have := gap _ _ last last'
    omega

/-- What the loop leaves behind when the segments are a page apart. -/
theorem loadProgram_bytes (ready : EmptyLower root k free) (lower : ∀ h ∈ loadable image, h.Lower)
    (room : 4 * pageTotal (loadable image) ≤ free.length)
    (separate : Separate (loadable image) (fun _ => none)) :
    ∃ s, loadProgram image k = some s ∧ s.log = (loadable image).flatMap segmentEvents ∧
      ∀ h ∈ loadable image, ∀ n < h.memsz,
        s.kernel.loadVirt (h.vaddr + n) = some (fileByte image (h.offset + n)) := by
  rcases loadSegments_separate image [] ready.holds (fun _ => mem_loadable) lower room
    separate with ⟨k', free', run, held⟩
  refine ⟨_, (loadProgram_eq ready).trans run, List.nil_append _, ?_⟩
  intro h member n bound
  have low := lower h member
  unfold Phdr.Lower at low
  have touched : h.Touches ((h.vaddr + n) / 4096) := by
    unfold Phdr.Touches
    omega
  rw [held.loadVirt (by omega), placeSegments_here separate.apart member touched, Option.map_some,
    segmentPage_byte bound]

/-- The copy takes `p_memsz` bytes from the file, so the tail of a segment is what follows it there.
-/
theorem bytesLoaded_iff (ready : EmptyLower root k free) (lower : ∀ h ∈ loadable image, h.Lower)
    (room : 4 * pageTotal (loadable image) ≤ free.length)
    (separate : Separate (loadable image) (fun _ => none)) (run : loadProgram image k = some s) :
    BytesLoaded image s ↔ ∀ h ∈ loadable image, ZeroTail image h := by
  rcases loadProgram_bytes ready lower room separate with ⟨s', run', logged, bytes⟩
  rw [run, Option.some.injEq] at run'
  subst run'
  constructor
  · intro loaded h member n tail bound
    constructor
    · have zero := loaded.bytes h member n bound
      rw [bytes h member n bound, if_neg (by omega), Option.some.injEq] at zero
      exact zero
    · apply loaded.copied (h.vaddr + n) _ true
      rw [logged, copied_iff]
      exact ⟨h, member, n, bound, rfl, rfl, rfl⟩
  · intro tails
    constructor
    · intro h member n bound
      rw [bytes h member n bound]
      split
      · rfl
      · rw [(tails h member n (by omega) bound).1]
    · intro des src writable copied
      rw [logged, copied_iff] at copied
      rcases copied with ⟨h, member, n, bound, -, rfl, -⟩
      by_cases inFile : n < h.filesz
      · exact ⟨h, member, n, inFile, rfl⟩
      · exact (tails h member n (by omega) bound).2

/-- The loader puts the right bytes in memory exactly when each segment is followed in the file
by the zeroes it should end in. -/
theorem program_bytes_iff (ready : EmptyLower root k free) (lower : ∀ h ∈ loadable image, h.Lower)
    (gaps : (loadable image).Pairwise fun h h' => ∀ p q, h.Covers p → h'.Covers q →
      p + 1 < q ∨ q + 1 < p)
    (room : 4 * pageTotal (loadable image) ≤ free.length) :
    (∃ s, loadProgram image k = some s ∧ BytesLoaded image s) ↔
      ∀ h ∈ loadable image, h.pageCount ≤ 2 ^ 19 ∧ ZeroTail image h := by
  constructor
  · rintro ⟨s, run, loaded⟩ h member
    have counted := loadSegments_counted (fun _ => mem_loadable)
      ((loadProgram_eq ready).symm.trans run)
    exact ⟨counted h member,
      (bytesLoaded_iff ready lower room (separate_of_gaps gaps counted) run).mp loaded h member⟩
  · intro condition
    have separate := separate_of_gaps gaps (fun h member => (condition h member).1)
    rcases loadProgram_bytes ready lower room separate with ⟨s, run, _⟩
    exact ⟨s, run, (bytesLoaded_iff ready lower room separate run).mpr
      (fun h member => (condition h member).2)⟩

theorem small_program_bytes :
    ∃ s, loadProgram (smallModule 8) bareKernel = some s ∧ BytesLoaded (smallModule 8) s := by
  have segments : loadable (smallModule 8) = [⟨1, 6, 0x100, 0x400100, 8, 8⟩] := by decide
  refine (program_bytes_iff bare_emptyLower ?_ ?_ ?_).mpr ?_ <;> rw [segments]
  · simp [Phdr.Lower]
  · simp
  · decide
  · simp only [List.forall_mem_singleton]
    refine ⟨by decide, ?_⟩
    intro n tail bound
    simp only at tail bound
    omega

theorem small_bss_kept :
    (∀ h ∈ loadable (smallModule 4), h.Lower ∧ h.filesz ≤ h.memsz) ∧
      (loadable (smallModule 4)).Pairwise (fun h h' => ∀ p q, h.Covers p → h'.Covers q →
        p + 1 < q ∨ q + 1 < p) ∧
      EmptyLower 0x1000 bareKernel barePages ∧
      4 * pageTotal (loadable (smallModule 4)) ≤ barePages.length ∧
      ¬ ∃ s, loadProgram (smallModule 4) bareKernel = some s ∧ BytesLoaded (smallModule 4) s := by
  have segments : loadable (smallModule 4) = [⟨1, 6, 0x100, 0x400100, 4, 8⟩] := by decide
  have lower : ∀ h ∈ loadable (smallModule 4), h.Lower := by
    rw [segments]
    simp [Phdr.Lower]
  have gaps : (loadable (smallModule 4)).Pairwise (fun h h' => ∀ p q, h.Covers p → h'.Covers q →
      p + 1 < q ∨ q + 1 < p) := by
    rw [segments]
    exact List.pairwise_singleton _ _
  have room : 4 * pageTotal (loadable (smallModule 4)) ≤ barePages.length := by
    rw [segments]
    decide
  refine ⟨fun h member => ⟨lower h member, ?_⟩, gaps, bare_emptyLower, room, ?_⟩
  · rw [segments, List.mem_singleton] at member
    rw [member]
    decide
  · rintro ⟨s, run, loaded⟩
    have counted := loadSegments_counted (fun _ => mem_loadable)
      ((loadProgram_eq bare_emptyLower).symm.trans run)
    have tail := (bytesLoaded_iff bare_emptyLower lower room (separate_of_gaps gaps counted) run).mp
      loaded ⟨1, 6, 0x100, 0x400100, 4, 8⟩ (by rw [segments]; exact List.mem_singleton_self _) 4
      (by decide) (by decide)
    exact absurd tail.1 (by decide)

theorem pagesLoaded_boundary (ready : EmptyLower root k free)
    (lower : ∀ h ∈ loadable image, h.Lower) (room : 4 * pageTotal (loadable image) ≤ free.length)
    (run : loadProgram image k = some s) (loaded : PagesLoaded image root s) :
    ∀ h ∈ loadable image, (h.vaddr + h.memsz) % 4096 ≠ 0 ∧ h.pageCount ≤ 2 ^ 19 := by
  have loop := (loadProgram_eq ready).symm.trans run
  have separate := loadSegments_succeeds ready.holds (fun _ => mem_loadable) lower room loop
    loaded.succeed
  rcases loadSegments_separate image [] ready.holds (fun _ => mem_loadable) lower room
    separate with ⟨k', free', loop', held⟩
  rw [loop, Option.some.injEq] at loop'
  subst loop'
  intro h member
  refine ⟨fun boundary => ?_, separate.counted h member⟩
  have low := lower h member
  unfold Phdr.Lower at low
  -- the page after the segment is mapped, so by the property another segment covers it
  have touched : h.Touches ((h.vaddr + h.memsz) / 4096) :=
    (Phdr.touches_covers (mem_loadable member) _).mpr (.inr ⟨boundary, rfl⟩)
  have present := (placeSegments_present image separate.apart _).mpr ⟨h, member, touched⟩
  have mapped := (loaded.mapped (h.vaddr + h.memsz) (by omega)).mp
    (fun missing => present ((held.mapped_iff (by omega)).mp missing))
  rcases mapped with ⟨h', member', covered⟩
  have different : h ≠ h' := by
    rintro rfl
    unfold Phdr.Covers at covered
    omega
  have symmetric : Std.Symm fun h h' : Phdr => ∀ page, h.Touches page → ¬ h'.Touches page :=
    ⟨fun _ _ apart page here there => apart page there here⟩
  exact separate.apart.forall member member' different _ touched
    ((Phdr.touches_covers (mem_loadable member') _).mpr (.inl covered))

theorem pagesLoaded_of_boundary (ready : EmptyLower root k free)
    (lower : ∀ h ∈ loadable image, h.Lower)
    (apart : (loadable image).Pairwise fun h h' => ∀ page, h.Covers page → ¬ h'.Covers page)
    (room : 4 * pageTotal (loadable image) ≤ free.length)
    (condition : ∀ h ∈ loadable image, (h.vaddr + h.memsz) % 4096 ≠ 0 ∧ h.pageCount ≤ 2 ^ 19) :
    ∃ s, loadProgram image k = some s ∧ PagesLoaded image root s := by
  have same : ∀ h ∈ loadable image, ∀ page, h.Touches page ↔ h.Covers page := by
    intro h member page
    rw [Phdr.touches_covers (mem_loadable member)]
    exact or_iff_left (fun beyond => (condition h member).1 beyond.1)
  have separate : Separate (loadable image) (fun _ => none) := by
    refine ⟨fun h member => (condition h member).2, fun _ _ _ _ => rfl, apart.imp_of_mem ?_⟩
    intro h h' member member' disjoint page touched touched'
    exact disjoint page ((same h member page).mp touched) ((same h' member' page).mp touched')
  rcases loadSegments_separate image [] ready.holds (fun _ => mem_loadable) lower room
    separate with ⟨k', free', run, held⟩
  refine ⟨_, (loadProgram_eq ready).trans run, ?_, ?_⟩
  · intro v low
    rw [ne_eq, held.mapped_iff low, ← ne_eq, placeSegments_present image separate.apart]
    constructor
    · rintro ⟨h, member, touched⟩
      exact ⟨h, member, (same h member _).mp touched⟩
    · rintro ⟨h, member, covered⟩
      exact ⟨h, member, (same h member _).mpr covered⟩
  · intro e logged
    rw [List.nil_append, List.mem_flatMap] at logged
    rcases logged with ⟨h, _, event⟩
    exact segmentEvents_succeed h e event

/-- Page-disjoint segments load without interference exactly when none ends on a page boundary. -/
theorem program_pages_iff (ready : EmptyLower root k free) (lower : ∀ h ∈ loadable image, h.Lower)
    (apart : (loadable image).Pairwise fun h h' => ∀ page, h.Covers page → ¬ h'.Covers page)
    (room : 4 * pageTotal (loadable image) ≤ free.length) :
    (∃ s, loadProgram image k = some s ∧ PagesLoaded image root s) ↔
      ∀ h ∈ loadable image, (h.vaddr + h.memsz) % 4096 ≠ 0 ∧ h.pageCount ≤ 2 ^ 19 := by
  constructor
  · rintro ⟨s, run, loaded⟩
    exact pagesLoaded_boundary ready lower room run loaded
  · exact pagesLoaded_of_boundary ready lower apart room

theorem small_program_pages :
    ∃ s, loadProgram (smallModule 8) bareKernel = some s ∧
      PagesLoaded (smallModule 8) 0x1000 s := by
  have segments : loadable (smallModule 8) = [⟨1, 6, 0x100, 0x400100, 8, 8⟩] := by decide
  refine (program_pages_iff bare_emptyLower ?_ ?_ ?_).mpr ?_ <;> rw [segments]
  · simp [Phdr.Lower]
  · simp
  · decide
  · simp only [List.forall_mem_singleton]
    decide

theorem adjacent_pages_collide :
    (∀ h ∈ loadable adjacentModule, h.Lower) ∧
      (loadable adjacentModule).Pairwise (fun h h' => ∀ page, h.Covers page → ¬ h'.Covers page) ∧
      EmptyLower 0x1000 bareKernel barePages ∧ bareKernel.writeProtect = true ∧
      4 * pageTotal (loadable adjacentModule) ≤ barePages.length ∧
      ¬ ∃ s, loadProgram adjacentModule bareKernel = some s ∧
        PagesLoaded adjacentModule 0x1000 s := by
  have segments : loadable adjacentModule =
      [⟨1, 4, 0, 0x400000, 0, 0x1000⟩, ⟨1, 6, 0, 0x401000, 0, 1⟩] := by decide
  have lower : ∀ h ∈ loadable adjacentModule, h.Lower := by
    rw [segments]
    simp [Phdr.Lower]
  have room : 4 * pageTotal (loadable adjacentModule) ≤ barePages.length := by
    rw [segments]
    decide
  refine ⟨lower, ?_, bare_emptyLower, by decide, room, ?_⟩
  · rw [segments, List.pairwise_pair]
    intro page covered covered'
    simp only [Phdr.Covers] at covered covered'
    omega
  · rintro ⟨s, run, loaded⟩
    have boundary := pagesLoaded_boundary bare_emptyLower lower room run loaded
      ⟨1, 4, 0, 0x400000, 0, 0x1000⟩ (by rw [segments]; exact List.mem_cons_self)
    exact boundary.1 (by decide)

end Program

end PaintKernel
