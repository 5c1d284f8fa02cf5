import Mathlib
import PaintKernel.PageMap
import PaintKernel.Printf

set_option autoImplicit false

/-! `translate`, which prints the walk of an address level by level. -/

namespace PaintKernel

open ByteMemory Output RadixTree

def translatingFormat : CString := ⟨ascii "Translating: %p\n".toList, by decide +kernel⟩
def level4Format : CString := ⟨ascii "    Level 4 (index %d of %p)\n".toList, by decide +kernel⟩
def level3Format : CString := ⟨ascii "    Level 3 (index %d of %p)\n".toList, by decide +kernel⟩
def level2Format : CString := ⟨ascii "    Level 2 (index %d of 0x%x)\n".toList, by decide +kernel⟩
def level1Format : CString := ⟨ascii "    Level 1 (index %d of %p)\n".toList, by decide +kernel⟩
def mapsFormat : CString := ⟨ascii "%p maps to 0x%x\n".toList, by decide +kernel⟩

def notPresentFormat : CString := ⟨ascii "        not present\n".toList, by decide +kernel⟩
def indentFormat : CString := ⟨ascii "        ".toList, by decide +kernel⟩
def userFormat : CString := ⟨ascii "user ".toList, by decide +kernel⟩
def kernelFormat : CString := ⟨ascii "kernel ".toList, by decide +kernel⟩
def writableFormat : CString := ⟨ascii "writable ".toList, by decide +kernel⟩
def executableFormat : CString := ⟨ascii "executable".toList, by decide +kernel⟩
def targetFormat : CString := ⟨ascii " -> %p\n".toList, by decide +kernel⟩

def checkPermission (table : PageTableEntry) : Option (List UInt8) × Bool :=
  if !table.present then (kprintf notPresentFormat [], true)
  else
    (concat [kprintf indentFormat [],
      if table.kernel then kprintf userFormat [] else kprintf kernelFormat [],
      if table.writable then kprintf writableFormat [] else some [],
      if !table.noExecute then kprintf executableFormat [] else some [],
      kprintf targetFormat [.ptr (UInt64.ofNat table.target)]], false)

def translateLevel (printed : Option (List UInt8)) (format : CString) (index : Fin 512)
    (start : Arg) (table : PageTableEntry) : Option (List UInt8) × Bool :=
  let printed := andThen printed (kprintf format [.num (UInt64.ofNat index), start])
  let (seen, absent) := checkPermission table
  (andThen printed seen, absent)

/-- The text printed and `physical_addr`, if the function gets that far. The mask of the offset has
eleven bits. -/
def Kernel.translate (k : Kernel) (pageTable address : Nat) : Option (List UInt8) × Option Nat :=
  let offset := address &&& 0x7ff
  let printed := kprintf translatingFormat [.ptr (UInt64.ofNat address)]
  let level4Table := k.loadEntry (k.entryPtr pageTable (level4 address))
  let (printed, absent) :=
    translateLevel printed level4Format (level4 address) (.ptr (UInt64.ofNat pageTable)) level4Table
  if absent then (printed, none) else
  let level3Start := level4Table.target
  let level3Table := k.loadEntry (k.entryPtr level3Start (level3 address))
  let (printed, absent) :=
    translateLevel printed level3Format (level3 address)
      (.ptr (UInt64.ofNat level3Start)) level3Table
  if absent then (printed, none) else
  let level2Start := level3Table.target
  let level2Table := k.loadEntry (k.entryPtr level2Start (level2 address))
  let (printed, absent) :=
    translateLevel printed level2Format (level2 address)
      (.num (UInt64.ofNat level2Start)) level2Table
  if absent then (printed, none) else
  let level1Start := level2Table.target
  let level1Table := k.loadEntry (k.entryPtr level1Start (level1 address))
  let (printed, absent) :=
    translateLevel printed level1Format (level1 address)
      (.ptr (UInt64.ofNat level1Start)) level1Table
  if absent then (printed, none) else
  let physicalAddr := level1Table.target + offset
  (andThen printed (kprintf mapsFormat [.ptr (UInt64.ofNat address),
    .num (UInt64.ofNat physicalAddr)]),
    some physicalAddr)

def notPresentLine : List UInt8 := ascii "        not present\n".toList

def mapsLine (address physicalAddr : Nat) : List UInt8 :=
  ascii "0x".toList ++ digitText 16 address ++ ascii " maps to 0x".toList ++
    digitText 16 physicalAddr ++
    ascii "\n".toList

namespace Kernel

def Stops (k : Kernel) (root address : Nat) : Prop :=
  ∃ before, k.translate root address = (some (before ++ notPresentLine), none)

def Reports (k : Kernel) (root address physicalAddr : Nat) : Prop :=
  ∃ before, k.translate root address = (some (before ++ mapsLine address physicalAddr),
    some physicalAddr)

/-- The report is that of the hardware, and there is none exactly where `vm_protect` gives up. -/
structure TranslatesRight (k : Kernel) (root address : Nat) : Prop where
  mapped : ∀ mapping, walk k.mem root address = some mapping →
    mapping.frame = (entryAt1 k.mem root address).physicalAddr.toNat * 4096 ∧
      k.Reports root address (mapping.frame + address % 4096)
  unmapped : k.Stops root address ↔
    ∀ user writable executable, (k.vmProtect root address user writable executable).2 = false

end Kernel

section Text

theorem kprintf_pieces {format : CString} {args : List Arg} {ps : List Piece}
    (parsed : pieces format.bytes args = some ps) (short : ∀ p ∈ ps, p.Short) :
    kprintf format args = some (ps.flatMap Piece.text) := by
  rw [kprintf, formatLoop_pieces parsed]
  exact (kprintPiece_prints.concat_iff ps).mpr short

theorem kprintf_plain {format : CString} (plain : ∀ c ∈ format.bytes, c ≠ byte '%') :
    kprintf format [] = some format.bytes := by
  have parsed : ∀ bytes : List UInt8, (∀ c ∈ bytes, c ≠ byte '%') →
      pieces bytes [] = some (bytes.map .plain) := by
    intro bytes
    induction bytes with
    | nil => exact fun _ => rfl
    | cons c rest ih =>
        intro plain
        rw [List.forall_mem_cons] at plain
        rw [pieces.eq_def]
        simp only [if_neg plain.1, ih plain.2, Option.bind_eq_bind, Option.bind_some, List.map_cons]
        rfl
  have short : ∀ p ∈ format.bytes.map Piece.plain, p.Short := by
    intro p member
    rcases List.mem_map.mp member with ⟨c, _, rfl⟩
    trivial
  rw [kprintf_pieces (parsed _ plain) short, List.flatMap_map]
  simp [Piece.text]

def Arg.Number : Arg → Prop
  | .str _ => False
  | _ => True

theorem conversion_short {spec : UInt8} {args rest : List Arg} {p : Piece}
    (converted : conversion spec args = some (p, rest)) (numbers : ∀ a ∈ args, a.Number) :
    p.Short ∧ ∀ a ∈ rest, a.Number := by
  unfold conversion at converted
  split_ifs at converted
  case neg =>
    cases converted
    exact ⟨trivial, numbers⟩
  case pos =>
    cases converted
    exact ⟨trivial, numbers⟩
  all_goals
    split at converted
    · cases converted
      first
        | exact ⟨trivial, fun a member => numbers a (List.mem_cons_of_mem _ member)⟩
        | exact (numbers _ List.mem_cons_self).elim
    · cases converted

theorem pieces_short {format : List UInt8} {args : List Arg} {ps : List Piece}
    (parsed : pieces format args = some ps) (numbers : ∀ a ∈ args, a.Number) :
    ∀ p ∈ ps, p.Short := by
  induction format, args using pieces.induct generalizing ps with
  | case1 args =>
      cases parsed
      exact fun _ member => by cases member
  | case2 args => simp [pieces] at parsed
  | case3 args spec rest ih =>
      simp only [pieces, if_true, Option.bind_eq_bind, Option.bind_eq_some_iff] at parsed
      rcases parsed with ⟨⟨piece, args'⟩, converted, ⟨later, parsed', last⟩⟩
      cases last
      have first := conversion_short converted numbers
      rw [List.forall_mem_cons]
      exact ⟨first.1, ih args' parsed' first.2⟩
  | case4 c rest args plain ih =>
      rw [pieces.eq_def] at parsed
      simp only [if_neg plain, Option.bind_eq_bind, Option.bind_eq_some_iff] at parsed
      rcases parsed with ⟨later, parsed', last⟩
      cases last
      rw [List.forall_mem_cons]
      exact ⟨trivial, ih parsed' numbers⟩

theorem kprintf_numbers {format : CString} {args : List Arg}
    (fits : (pieces format.bytes args).isSome = true) (numbers : ∀ a ∈ args, a.Number) :
    ∃ text, kprintf format args = some text := by
  rcases Option.isSome_iff_exists.mp fits with ⟨ps, parsed⟩
  exact ⟨_, kprintf_pieces parsed (pieces_short parsed numbers)⟩

theorem kprintf_ptr (format : CString) (value : UInt64)
    (fits : (pieces format.bytes [.ptr value]).isSome = true) :
    ∃ text, kprintf format [.ptr value] = some text :=
  kprintf_numbers fits fun a member => by rw [List.mem_singleton.mp member]; trivial

theorem checkPermission_absent {e : PageTableEntry} (absent : e.present = false) :
    checkPermission e = (some notPresentLine, true) := by
  have line : kprintf notPresentFormat [] = some notPresentLine := kprintf_plain (by decide +kernel)
  simp only [checkPermission, absent, line, Bool.not_false, if_true]

theorem checkPermission_present {e : PageTableEntry} (present : e.present = true) :
    ∃ seen, checkPermission e = (some seen, false) := by
  have indent : kprintf indentFormat [] = some indentFormat.bytes :=
    kprintf_plain (by decide +kernel)
  have user : kprintf userFormat [] = some userFormat.bytes := kprintf_plain (by decide +kernel)
  have kernel : kprintf kernelFormat [] = some kernelFormat.bytes :=
    kprintf_plain (by decide +kernel)
  have writable : kprintf writableFormat [] = some writableFormat.bytes :=
    kprintf_plain (by decide +kernel)
  have executable : kprintf executableFormat [] = some executableFormat.bytes :=
    kprintf_plain (by decide +kernel)
  rcases kprintf_ptr targetFormat (UInt64.ofNat e.target) (by
    simp only [targetFormat, String.reduceToList, ascii, List.map_cons, List.map_nil]
    rfl) with ⟨last, target⟩
  simp only [checkPermission, present, Bool.not_true, Bool.false_eq_true, if_false, indent,
    user, kernel, writable, executable, target]
  cases e.kernel <;> cases e.writable <;> cases e.noExecute <;> exact ⟨_, rfl⟩

end Text

def LevelLine (format : CString) (start : Arg) : Prop :=
  ∀ index : Fin 512, ∃ line, kprintf format [.num (UInt64.ofNat index), start] = some line

theorem levelLine_of_fits {format : CString} {start : Arg} (number : start.Number)
    (fits : ∀ value, (pieces format.bytes [.num value, start]).isSome = true) :
    LevelLine format start := by
  intro index
  apply kprintf_numbers (fits _)
  intro a member
  simp only [List.mem_cons, List.not_mem_nil, or_false] at member
  rcases member with rfl | rfl
  · trivial
  · exact number

section Levels

variable {format : CString} {start : Arg} {e : PageTableEntry}

theorem translateLevel_absent (before : List UInt8) (line : LevelLine format start)
    (index : Fin 512) (absent : e.present = false) :
    ∃ text, translateLevel (some before) format index start e =
      (some (text ++ notPresentLine), true) := by
  rcases line index with ⟨text, printed⟩
  refine ⟨before ++ text, ?_⟩
  simp only [translateLevel, printed, checkPermission_absent absent, andThen_some]

theorem translateLevel_present (before : List UInt8) (line : LevelLine format start)
    (index : Fin 512) (present : e.present = true) :
    ∃ text, translateLevel (some before) format index start e = (some text, false) := by
  rcases line index with ⟨text, printed⟩
  rcases checkPermission_present present with ⟨seen, entry⟩
  exact ⟨before ++ text ++ seen, by simp only [translateLevel, printed, entry, andThen_some]⟩

end Levels

theorem level4_line (value : UInt64) : LevelLine level4Format (.ptr value) :=
  levelLine_of_fits trivial fun _ => by
    simp only [level4Format, String.reduceToList, ascii, List.map_cons, List.map_nil]
    rfl

theorem level3_line (value : UInt64) : LevelLine level3Format (.ptr value) :=
  levelLine_of_fits trivial fun _ => by
    simp only [level3Format, String.reduceToList, ascii, List.map_cons, List.map_nil]
    rfl

theorem level2_line (value : UInt64) : LevelLine level2Format (.num value) :=
  levelLine_of_fits trivial fun _ => by
    simp only [level2Format, String.reduceToList, ascii, List.map_cons, List.map_nil]
    rfl

theorem level1_line (value : UInt64) : LevelLine level1Format (.ptr value) :=
  levelLine_of_fits trivial fun _ => by
    simp only [level1Format, String.reduceToList, ascii, List.map_cons, List.map_nil]
    rfl

theorem maps_line {address physicalAddr : Nat} (bound : address < 2 ^ 64)
    (physical : physicalAddr < 2 ^ 64) :
    kprintf mapsFormat [.ptr (UInt64.ofNat address), .num (UInt64.ofNat physicalAddr)] =
      some (mapsLine address physicalAddr) := by
  have parsed : pieces mapsFormat.bytes [.ptr (UInt64.ofNat address),
    .num (UInt64.ofNat physicalAddr)] =
      some (.ptr (UInt64.ofNat address) :: (ascii " maps to 0x".toList).map .plain ++
        [.hex (UInt64.ofNat physicalAddr), .plain (byte '\n')]) := by
    simp only [mapsFormat, String.reduceToList, ascii, List.map_cons, List.map_nil]
    rfl
  have numbers : ∀ a ∈ [Arg.ptr (UInt64.ofNat address), .num (UInt64.ofNat physicalAddr)],
      a.Number := by
    intro a member
    simp only [List.mem_cons, List.not_mem_nil, or_false] at member
    rcases member with rfl | rfl <;> trivial
  rw [kprintf_pieces parsed (pieces_short parsed numbers)]
  have first : (UInt64.ofNat address).toNat = address := UInt64.toNat_ofNat_of_lt' bound
  have second : (UInt64.ofNat physicalAddr).toNat = physicalAddr :=
    UInt64.toNat_ofNat_of_lt' physical
  simp [mapsLine, Piece.text, first, second, ascii]

section Translate

variable {k : Kernel} {root address : Nat}

theorem offset_mask (address : Nat) : address &&& 0x7ff = address % 2048 :=
  Nat.and_two_pow_sub_one_eq_mod address 11

def AllPresent (m : Mem) (root address : Nat) : Prop :=
  (entryAt4 m root address).present = true ∧ (entryAt3 m root address).present = true ∧
    (entryAt2 m root address).present = true ∧ (entryAt1 m root address).present = true

instance (m : Mem) (root address : Nat) : Decidable (AllPresent m root address) :=
  inferInstanceAs (Decidable (_ ∧ _))

/-- The levels are visited until an entry is absent. -/
theorem translate_cases (base : PageBase root) (bound : address < 2 ^ 64) :
    if AllPresent k.mem root address
    then k.Reports root address ((entryAt1 k.mem root address).target + address % 2048)
    else k.Stops root address := by
  have load := fun table (bound : table < 2 ^ 52) (i : Fin 512) => k.loadEntry_eq_slot i bound
  have bounded := fun e : PageTableEntry => (target_pageBase e).2
  rcases kprintf_ptr translatingFormat (UInt64.ofNat address) (by
    simp only [translatingFormat, String.reduceToList, ascii, List.map_cons, List.map_nil]
    rfl) with ⟨first, translating⟩
  have entry4 : slot k.mem root (level4 address) = entryAt4 k.mem root address := rfl
  have entry3 : slot k.mem (entryAt4 k.mem root address).target (level3 address) =
      entryAt3 k.mem root address := rfl
  have entry2 : slot k.mem (entryAt3 k.mem root address).target (level2 address) =
      entryAt2 k.mem root address := rfl
  have entry1 : slot k.mem (entryAt2 k.mem root address).target (level1 address) =
      entryAt1 k.mem root address := rfl
  have line4 := level4_line (UInt64.ofNat root)
  have line3 := level3_line (UInt64.ofNat (entryAt4 k.mem root address).target)
  have line2 := level2_line (UInt64.ofNat (entryAt3 k.mem root address).target)
  have line1 := level1_line (UInt64.ofNat (entryAt2 k.mem root address).target)
  unfold Kernel.Reports Kernel.Stops AllPresent
  simp only [Kernel.translate, load root base.2, load _ (bounded _), translating, offset_mask,
    entry4, entry3, entry2, entry1]
  cases present4 : (entryAt4 k.mem root address).present with
  | false =>
      rcases translateLevel_absent first line4 _ present4 with ⟨text, level⟩
      rw [if_neg (by simp), level]
      exact ⟨text, rfl⟩
  | true =>
  rcases translateLevel_present first line4 (level4 address) present4 with ⟨text4, level⟩
  simp only [level, Bool.false_eq_true, if_false]
  cases present3 : (entryAt3 k.mem root address).present with
  | false =>
      rcases translateLevel_absent text4 line3 _ present3 with ⟨text, level⟩
      rw [if_neg (by simp), level]
      exact ⟨text, rfl⟩
  | true =>
  rcases translateLevel_present text4 line3 (level3 address) present3 with ⟨text3, level⟩
  simp only [level, Bool.false_eq_true, if_false]
  cases present2 : (entryAt2 k.mem root address).present with
  | false =>
      rcases translateLevel_absent text3 line2 _ present2 with ⟨text, level⟩
      rw [if_neg (by simp), level]
      exact ⟨text, rfl⟩
  | true =>
  rcases translateLevel_present text3 line2 (level2 address) present2 with ⟨text2, level⟩
  simp only [level, Bool.false_eq_true, if_false]
  cases present1 : (entryAt1 k.mem root address).present with
  | false =>
      rcases translateLevel_absent text2 line1 _ present1 with ⟨text, level⟩
      rw [if_neg (by simp), level]
      exact ⟨text, rfl⟩
  | true =>
  rcases translateLevel_present text2 line1 (level1 address) present1 with ⟨text1, level⟩
  have physical := (entryAt1 k.mem root address).target_lt
  have last := maps_line bound (show (entryAt1 k.mem root address).target + address % 2048 <
    2 ^ 64 by omega)
  rw [if_pos ⟨trivial, trivial, trivial, rfl⟩]
  exact ⟨text1, by simp only [level, Bool.false_eq_true, if_false, last, andThen_some]⟩

theorem Kernel.Reports.only {p q : Nat} (left : k.Reports root address p)
    (right : k.Reports root address q) :
    p = q := by
  rcases left with ⟨_, first⟩
  rcases right with ⟨_, second⟩
  exact Option.some.inj (congrArg Prod.snd (first.symm.trans second))

theorem Kernel.Stops.not_reports {p : Nat} (stops : k.Stops root address) :
    ¬ k.Reports root address p := by
  rintro ⟨_, found⟩
  rcases stops with ⟨_, stopped⟩
  cases congrArg Prod.snd (stopped.symm.trans found)

theorem vmProtect_iff (k : Kernel) (address : Nat) (base : PageBase root)
    (user writable executable : Bool) :
    (k.vmProtect root address user writable executable).2 = true ↔
      AllPresent k.mem root address := by
  have found := findTables_eq k address base
  change k.findTables root address = if AllPresent k.mem root address then _ else none at found
  unfold Kernel.vmProtect
  rw [found]
  by_cases present : AllPresent k.mem root address
  · rw [if_pos present]
    exact iff_of_true rfl present
  · rw [if_neg present]
    exact iff_of_false Bool.false_ne_true present

theorem walk_cases (base : PageBase root)
    (small : SlotsHold (SmallOn (indices address)) k.mem root) :
    if AllPresent k.mem root address
    then ∃ mapping, walk k.mem root address = some mapping ∧
      mapping.frame = (entryAt1 k.mem root address).target
    else walk k.mem root address = none := by
  have found := findTables_eq k address base
  change k.findTables root address = if AllPresent k.mem root address then _ else none at found
  cases mapped : pageAt k.mem root (indices address) with
  | none =>
      rw [findTables_unmapped base small mapped] at found
      split_ifs at found with present
      rw [if_neg present]
      exact walk_of_unmapped small mapped
  | some frame =>
      rcases traversed_of_mapped mapped with ⟨t3, t2, t1, tables⟩
      rw [findTables_mapped base tables mapped] at found
      split_ifs at found with present
      simp only [Option.some.injEq, Prod.mk.injEq] at found
      rcases walk_of_mapped mapped with ⟨mapping, here, same⟩
      have leaf := (nextTable_eq_some (tables.leaf.symm.trans mapped)).2
      rw [if_pos present]
      exact ⟨mapping, here, by rw [same, ← leaf, found.2.2, entryAt1]⟩

/-- Bit 11 of a mapped address is lost. -/
theorem reports_of_mapped (base : PageBase root) (bound : address < 2 ^ 64)
    (small : SlotsHold (SmallOn (indices address)) k.mem root) {mapping : Mapping}
    (found : walk k.mem root address = some mapping) :
    k.Reports root address (mapping.frame + address % 2048) := by
  have called := translate_cases (k := k) base bound
  have walked := walk_cases base small
  by_cases present : AllPresent k.mem root address
  · rw [if_pos present] at called walked
    rcases walked with ⟨other, here, frame⟩
    obtain rfl : mapping = other := Option.some.inj (found.symm.trans here)
    rw [frame]
    exact called
  · rw [if_neg present, found] at walked
    cases walked

/-- The report is right exactly for the first half of a mapped page. -/
theorem translate_iff (base : PageBase root) (bound : address < 2 ^ 64)
    (small : SlotsHold (SmallOn (indices address)) k.mem root) :
    k.TranslatesRight root address ↔ (walk k.mem root address ≠ none → address % 4096 < 2048) := by
  have called := translate_cases (k := k) base bound
  have walked := walk_cases base small
  have protect := fun user writable executable =>
    vmProtect_iff k address base user writable executable
  by_cases present : AllPresent k.mem root address
  · rw [if_pos present] at called walked
    rcases walked with ⟨mapping, found, frame⟩
    constructor
    · intro right _
      have reported := (right.mapped mapping found).2.only called
      omega
    · intro low
      have offset := low (by rw [found]; exact Option.some_ne_none mapping)
      refine ⟨?_, ?_⟩
      · intro other here
        obtain rfl : mapping = other := Option.some.inj (found.symm.trans here)
        refine ⟨by rw [frame, PageTableEntry.target_eq], ?_⟩
        rw [frame, show address % 4096 = address % 2048 by omega]
        exact called
      · refine iff_of_false (fun stops => stops.not_reports called) fun rejected => ?_
        have accepted := (protect false false false).mpr present
        rw [rejected] at accepted
        cases accepted
  · rw [if_neg present] at called walked
    refine iff_of_true ⟨?_, ?_⟩ fun mapped => absurd walked mapped
    · intro mapping found
      rw [walked] at found
      cases found
    · exact iff_of_true called fun user writable executable =>
        Bool.eq_false_of_not_eq_true fun accepted =>
          present ((protect user writable executable).mp accepted)

end Translate

theorem bare_translated (address : Nat) (same : indices address = indices 0x400000) :
    ∃ k mapping, bareKernel.vmMap 0x1000 0x400000 true true false = (k, true) ∧
      SlotsHold (SmallOn (indices address)) k.mem 0x1000 ∧ walk k.mem 0x1000 address =
        some mapping := by
  rcases bare_vmMap 0x400000 true true false with ⟨k, free, frame, call, grown, mapped⟩
  rcases walk_of_mapped mapped with ⟨mapping, found, _⟩
  refine ⟨k, mapping, call, ?_, ?_⟩
  · exact grown.slots _ (smallOn_stable _ _ _ _ _) (bare_slots fun _ _ _ => rfl)
  · rw [walk_indices _ _ same, found]

theorem bare_translate_right :
    ∃ k, bareKernel.vmMap 0x1000 0x400000 true true false = (k, true) ∧
      k.TranslatesRight 0x1000 0x4007FF := by
  rcases bare_translated 0x4007FF (by decide) with ⟨k, mapping, call, small, found⟩
  exact ⟨k, call, (translate_iff ⟨by decide, by decide⟩ (by decide) small).mpr fun _ => by decide⟩

theorem bare_translate_wrong :
    ∃ k mapping, bareKernel.vmMap 0x1000 0x400000 true true false = (k, true) ∧
      walk k.mem 0x1000 0x400800 = some mapping ∧ k.Reports 0x1000 0x400800 mapping.frame ∧
      ¬ k.TranslatesRight 0x1000 0x400800 := by
  rcases bare_translated 0x400800 (by decide) with ⟨k, mapping, call, small, found⟩
  have reported := reports_of_mapped ⟨by decide, by decide⟩ (by decide) small found
  refine ⟨k, mapping, call, found, reported, fun right => ?_⟩
  have other := (right.mapped mapping found).2.only reported
  omega

end PaintKernel
