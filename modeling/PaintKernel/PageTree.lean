import Mathlib
import PaintKernel.Paging
import PaintKernel.Library.RadixTree

set_option autoImplicit false

/-! Page tables as a radix tree over physical memory. -/

namespace PaintKernel

open ByteMemory RadixTree

/-- The page an entry points to, by the depth of its table: tables at depths 0 to 2,
mapped frames at depth 3. Large pages hold no table. -/
def nextTable : Nat → PageTableEntry → Option Nat
  | 0, e | 3, e => if e.present then some e.target else none
  | 1, e | 2, e => if e.present && !e.pageSize then some e.target else none
  | _, _ => none

abbrev pageAt (m : Mem) (root : Nat) (path : List (Fin 512)) : Option Nat :=
  follow nextTable (slot m) 0 root path

def indices (address : Nat) : List (Fin 512) :=
  [level4 address, level3 address, level2 address, level1 address]

def pageNumber (address : Nat) : Nat := address / 4096 % 2 ^ 36

/-- Bit 47 is clear: the address is translated by the first half of the level-4 table. -/
def LowerHalf (address : Nat) : Prop := (level4 address).val < 256

theorem tableIndex_val (address shift : Nat) :
    (tableIndex address shift).val = address / 2 ^ shift % 512 := by
  simp only [tableIndex, Nat.shiftRight_eq_div_pow]
  exact Nat.and_two_pow_sub_one_eq_mod _ 9

theorem indices_eq_iff (a b : Nat) : indices a = indices b ↔ pageNumber a = pageNumber b := by
  simp only [indices, List.cons.injEq, and_true, Fin.ext_iff, level1, level2, level3, level4,
    tableIndex_val, pageNumber]
  omega

theorem indices_split (address : Nat) :
    indices address = [level4 address, level3 address, level2 address] ++ [level1 address] := rfl

theorem lowerHalf_of_lt {address : Nat} (low : address < 2 ^ 47) : LowerHalf address := by
  simp only [LowerHalf, level4, tableIndex_val]
  omega

theorem indices_lower {a b : Nat} (low : a < 2 ^ 47) (lowB : b < 2 ^ 47) :
    indices a = indices b ↔ a / 4096 = b / 4096 := by
  rw [indices_eq_iff]
  unfold pageNumber
  omega

theorem nextTable_eq_some {depth target : Nat} {e : PageTableEntry}
    (points : nextTable depth e = some target) : e.present = true ∧ e.target = target := by
  unfold nextTable at points
  split at points <;> simp_all

theorem nextTable_absent {e : PageTableEntry} (absent : e.present = false) (depth : Nat) :
    nextTable depth e = none := by
  unfold nextTable
  split <;> simp [absent]

theorem nextTable_present {depth : Nat} {e : PageTableEntry} (short : depth < 4)
    (present : e.present = true) (small : depth = 1 ∨ depth = 2 → e.pageSize = false) :
    nextTable depth e = some e.target := by
  match depth with
  | 0 | 3 => simp [nextTable, present]
  | 1 | 2 => simp [nextTable, present, small]

theorem nextTable_deep (depth : Nat) (e : PageTableEntry) (deep : 4 ≤ depth) :
    nextTable depth e = none := by
  match depth with
  | 0 | 1 | 2 | 3 => omega
  | _ + 4 => rfl

/-! The walk reads the entries on the path of an address. -/

def resolve (address : Nat) : List PageTableEntry → Option Mapping
  | [e4, e3] =>
      if e3.present then
        some (.ofEntries (e3.target / 2 ^ 30 * 2 ^ 30 + level2 address * 2 ^ 21 +
          level1 address * 2 ^ 12)
          [e4, e3])
      else none
  | [e4, e3, e2] =>
      if e2.present then
        some (.ofEntries (e2.target / 2 ^ 21 * 2 ^ 21 + level1 address * 2 ^ 12) [e4, e3, e2])
      else none
  | [e4, e3, e2, e1] => if e1.present then some (.ofEntries e1.target [e4, e3, e2, e1]) else none
  | _ => none

theorem walk_eq_resolve (m : Mem) (root address : Nat) :
    walk m root address =
      resolve address (entries nextTable (slot m) 0 root (indices address)) := by
  let e4 := slot m root (level4 address)
  let e3 := slot m e4.target (level3 address)
  let e2 := slot m e3.target (level2 address)
  let e1 := slot m e2.target (level1 address)
  cases present4 : e4.present
  · simp [walk, indices, entries, nextTable, resolve, e4, present4]
  cases present3 : e3.present
  · simp [walk, indices, entries, nextTable, resolve, e4, e3, present4, present3]
  cases size3 : e3.pageSize
  · cases present2 : e2.present
    · simp [walk, indices, entries, nextTable, resolve, e4, e3, e2, present4, present3,
        size3, present2]
    cases size2 : e2.pageSize
    · cases present1 : e1.present <;>
        simp [walk, indices, entries, nextTable, resolve, e4, e3, e2, e1, present4, present3, size3,
          present2, size2, present1]
    · simp [walk, indices, entries, nextTable, resolve, e4, e3, e2, present4, present3, size3,
        present2, size2]
  · simp [walk, indices, entries, nextTable, resolve, e4, e3, present4, present3, size3]

theorem resolve_absent (address : Nat) (before : List PageTableEntry) (e : PageTableEntry)
    (absent : e.present = false) : resolve address (before ++ [e]) = none := by
  match before with
  | [] => rfl
  | [_] | [_, _] | [_, _, _] => simp [resolve, absent]
  | _ :: _ :: _ :: _ :: rest => cases rest <;> rfl

theorem walk_congr {m m' : Mem} {root a : Nat}
    (same : entries nextTable (slot m') 0 root (indices a) =
      entries nextTable (slot m) 0 root (indices a)) : walk m' root a = walk m root a := by
  rw [walk_eq_resolve, walk_eq_resolve, same]

theorem walk_frame_aligned {m : Mem} {root a : Nat} {mapping : Mapping}
    (mapped : walk m root a = some mapping) : mapping.frame % 4096 = 0 := by
  rw [walk_eq_resolve] at mapped
  unfold resolve at mapped
  split at mapped
  all_goals try cases mapped
  · split at mapped
    · cases mapped
      simp only [Mapping.ofEntries]
      omega
    · cases mapped
  · split at mapped
    · cases mapped
      simp only [Mapping.ofEntries]
      omega
    · cases mapped
  · split at mapped
    · cases mapped
      exact PageTableEntry.target_aligned _
    · cases mapped

/-- A page number fixes the translation of a page of tables without large pages. -/
theorem walk_eq_leaf {m : Mem} {root a table : Nat}
    (reached : pageAt m root [level4 a, level3 a, level2 a] = some table) :
    walk m root a =
      let e4 := slot m root (level4 a)
      let e3 := slot m e4.target (level3 a)
      let e2 := slot m e3.target (level2 a)
      let e1 := slot m table (level1 a)
      if e1.present then some (.ofEntries e1.target [e4, e3, e2, e1]) else none := by
  simp only [pageAt, follow, nextTable] at reached
  cases present4 : (slot m root (level4 a)).present
  · simp [present4] at reached
  simp only [present4, if_true, Option.bind_some] at reached
  cases open3 : (slot m (slot m root (level4 a)).target (level3 a)).present &&
      !(slot m (slot m root (level4 a)).target (level3 a)).pageSize
  · simp [open3] at reached
  simp only [open3, if_true, Option.bind_some] at reached
  cases open2 : (slot m (slot m (slot m root (level4 a)).target (level3 a)).target
    (level2 a)).present &&
      !(slot m (slot m (slot m root (level4 a)).target (level3 a)).target (level2 a)).pageSize
  · simp [open2] at reached
  simp only [open2, if_true, Option.bind_some, Option.some.injEq] at reached
  simp only [Bool.and_eq_true, Bool.not_eq_true'] at open3 open2
  cases present1 : (slot m table (level1 a)).present <;>
    simp [walk, present4, open3, open2, reached, present1]

/-! Slots in memory. -/

theorem slot_congr {m m' : Mem} {table : Nat} {index : Fin 512}
    (agree : ∀ n, table + 8 * index ≤ n → n < table + 8 * index + 8 → m' n = m n) :
    slot m' table index = slot m table index := by
  rw [slot, slot, readLE_congr m m' _ _ agree]

theorem slot_agree {m m' : Mem} {start count table : Nat} {index : Fin 512}
    (agree : AgreeOutside m m' start count)
    (disjoint : table + 8 * index + 8 ≤ start ∨ start + count ≤ table + 8 * index) :
    slot m' table index = slot m table index :=
  slot_congr (fun n lower upper => agree n (by omega))

theorem slot_zero {m : Mem} {table : Nat} (zeroes : ∀ n, table ≤ n → n < table + 4096 → m n = 0)
    (index : Fin 512) : slot m table index = .decode 0 := by
  have bound := index.isLt
  rw [slot, readLE_zero m _ _ (fun n lower upper => zeroes n (by omega) (by omega))]

theorem pageAt_of_blank {m : Mem} {root page : Nat} {path : List (Fin 512)}
    (blank : ∀ i, (slot m root i).present = false) (reached : pageAt m root path = some page) :
    path = [] ∧ page = root := by
  cases path with
  | nil =>
      cases reached
      exact ⟨rfl, rfl⟩
  | cons i path =>
      simp only [pageAt, follow, nextTable_absent (blank i)] at reached
      cases reached

def setSlot (m : Mem) (table : Nat) (index : Fin 512) (e : PageTableEntry) : Mem :=
  writeLE m (table + 8 * index) 8 e.encode

@[simp] theorem slot_setSlot (m : Mem) (table : Nat) (index : Fin 512) (e : PageTableEntry) :
    slot (setSlot m table index e) table index = e := by
  rw [slot, setSlot, readLE_writeLE _ _ _ _ e.encode_lt, PageTableEntry.decode_encode]

theorem setSlot_agreeOutside (m : Mem) (table : Nat) (index : Fin 512) (e : PageTableEntry) :
    AgreeOutside m (setSlot m table index e) (table + 8 * index) 8 :=
  writeLE_agreeOutside _ _ _ _

theorem slot_setSlot_other (m : Mem) {table other : Nat} {index i : Fin 512} (e : PageTableEntry)
    (aligned : table % 4096 = 0) (otherAligned : other % 4096 = 0)
    (different : ¬ (other = table ∧ i = index)) :
    slot (setSlot m table index e) other i = slot m other i := by
  apply slot_agree (setSlot_agreeOutside m table index e)
  have bound := index.isLt
  have otherBound := i.isLt
  have apart : other ≠ table ∨ i.val ≠ index.val := by
    by_contra same
    simp only [ne_eq, not_or, not_not] at same
    exact different ⟨same.1, Fin.ext same.2⟩
  omega

def PageBase (p : Nat) : Prop := p % 4096 = 0 ∧ p < 2 ^ 52

theorem target_pageBase (e : PageTableEntry) : PageBase e.target :=
  ⟨e.target_aligned, e.target_lt⟩

theorem pageAt_pageBase {m : Mem} {root page : Nat} {path : List (Fin 512)} (base : PageBase root)
    (reached : pageAt m root path = some page) : PageBase page := by
  rcases List.eq_nil_or_concat path with rfl | ⟨front, i, rfl⟩
  · cases reached
    exact base
  · rw [List.concat_eq_append, pageAt, follow_snoc] at reached
    obtain ⟨table, _, points⟩ := Option.bind_eq_some_iff.mp reached
    rw [← (nextTable_eq_some points).2]
    exact target_pageBase _

theorem pageAt_snoc {m : Mem} {root t : Nat} {before : List (Fin 512)} {i : Fin 512}
    (reached : pageAt m root before = some t) :
    pageAt m root (before ++ [i]) = nextTable before.length (slot m t i) := by
  unfold pageAt at reached ⊢
  rw [follow_snoc, reached, Option.bind_some, Nat.zero_add]

theorem pageAt_absent {m : Mem} {root t : Nat} {before : List (Fin 512)} {i : Fin 512}
    (reached : pageAt m root before = some t) (absent : (slot m t i).present = false) :
    pageAt m root (before ++ [i]) = none := by
  rw [pageAt_snoc reached, nextTable_absent absent]

theorem pageAt_present {m : Mem} {root t : Nat} {before : List (Fin 512)} {i : Fin 512}
    (reached : pageAt m root before = some t) (short : before.length < 4)
    (present : (slot m t i).present = true)
    (small : before.length = 1 ∨ before.length = 2 → (slot m t i).pageSize = false) :
    pageAt m root (before ++ [i]) = some (slot m t i).target := by
  rw [pageAt_snoc reached, nextTable_present short present small]

theorem pageAt_points {m : Mem} {root t : Nat} {before : List (Fin 512)} {i : Fin 512}
    (reached : pageAt m root before = some t) (short : before.length < 4)
    (points : ((slot m t i).present && !(slot m t i).pageSize) = true) :
    pageAt m root (before ++ [i]) = some (slot m t i).target := by
  rw [Bool.and_eq_true, Bool.not_eq_true'] at points
  exact pageAt_present reached short points.1 fun _ => points.2

theorem absent_of_pageAt {m : Mem} {root t : Nat} {before : List (Fin 512)} {i : Fin 512}
    (reached : pageAt m root before = some t) (short : before.length < 4)
    (small : before.length = 1 ∨ before.length = 2 → (slot m t i).pageSize = false)
    (missing : pageAt m root (before ++ [i]) = none) : (slot m t i).present = false := by
  cases present : (slot m t i).present with
  | false => rfl
  | true =>
      rw [pageAt_present reached short present small] at missing
      cases missing

theorem before_short {before rest path : List (Fin 512)} {i : Fin 512}
    (split : before ++ i :: rest = path) (whole : path.length = 4) :
    before.length + rest.length = 3 := by
  have size := congrArg List.length split
  rw [List.length_append, List.length_cons] at size
  omega

namespace Kernel

theorem loadEntry_eq_slot (k : Kernel) {table : Nat} (index : Fin 512) (bound : table < 2 ^ 52) :
    k.loadEntry (k.entryPtr table index) = slot k.mem table index := by
  rw [loadEntry, load64, k.deref_entryPtr table index bound, slot]

theorem storeEntry_eq_setSlot (k : Kernel) {table : Nat} (index : Fin 512) (e : PageTableEntry)
    (bound : table < 2 ^ 52) :
    k.storeEntry (k.entryPtr table index) e = { k with mem := setSlot k.mem table index e } := by
  rw [storeEntry, store64, k.deref_entryPtr table index bound, setSlot]

end Kernel

end PaintKernel
