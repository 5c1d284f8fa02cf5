import Mathlib
import PaintKernel.Library.ByteMemory
import PaintKernel.Library.Run
import PaintKernel.Library.TextLayout

set_option autoImplicit false

/-! The text terminal, 25 rows of 80 cells in the VGA buffer, with every access to a cell checked.
-/

namespace PaintKernel

open ByteMemory Transition TextLayout

/-- The VGA buffer from its first byte on, two bytes a cell, and the cursor. -/
structure Terminal where
  term : Mem
  termCol : Nat
  termRow : Nat

def cellIndex (n : Nat) : Option Nat := if n < 80 * 25 then some n else none

def cellByte (n : Nat) : Option Nat := (cellIndex (n / 2)).map fun _ => n

/-- The fields of a cell: the character, then `fg` in the low and `bg` in the high bits of one
byte. -/
def setChar (term : Mem) (index : Nat) (c : UInt8) : Mem := store term (2 * index) c

def setFg (term : Mem) (index : Nat) (color : UInt8) : Mem :=
  store term (2 * index + 1) (term (2 * index + 1) &&& (0xF0 : UInt8) ||| color)

def setBg (term : Mem) (index : Nat) (color : UInt8) : Mem :=
  store term (2 * index + 1) (term (2 * index + 1) &&& (0x0F : UInt8) ||| color <<< (4 : UInt8))

def setEntry (term : Mem) (c : UInt8) (index : Nat) : Option Mem := do
  let index ← cellIndex index
  return setBg (setFg (setChar term index c) index 15) index 0

def copyCells (term : Mem) (des src size : Nat) : Option Mem :=
  (List.range size).foldlM (fun term i => do
    let from' ← cellByte (src + i)
    let to' ← cellByte (des + i)
    return store term to' (term from')) term

namespace Terminal

def termClear (t : Terminal) : Option Terminal := do
  let term ← (List.range (80 * 25)).foldlM (fun term i => do
    let index ← cellIndex i
    return setFg (setBg (setChar term index 0x20) index 0) index 15) t.term
  return ⟨term, 0, 0⟩

/-- The rows move up one and the last is cleared, once the cursor is below it. -/
def scroll (t : Terminal) : Option Terminal :=
  if t.termRow = 25 then do
    let term ← copyCells t.term 0 (2 * 80) (2 * 80 * (25 - 1))
    let termRow := t.termRow - 1
    let term ← (List.range 80).foldlM (fun term i => setEntry term 0x20 (i + termRow * 80)) term
    return { t with term, termRow }
  else some t

def termPutchar (t : Terminal) (c : UInt8) : Option Terminal :=
  if c = 0x0D then some { t with termCol := 0 }
  else if c = 0x08 then
    if t.termCol > 0 then do
      let termCol := t.termCol - 1
      let index ← cellIndex (t.termRow * 80 + termCol)
      return { t with term := setChar t.term index 0x20, termCol }
    else some t
  else do
    let t := if c = 0x0A then { t with termCol := 0, termRow := t.termRow + 1 } else t
    let t := if t.termCol = 80 then { t with termCol := 0, termRow := t.termRow + 1 } else t
    let t ← t.scroll
    if c ≠ 0x0A then
      let term ← setEntry t.term c (t.termCol + t.termRow * 80)
      return { t with term, termCol := t.termCol + 1 }
    else return t

end Terminal

def termInit (vga : Mem) : Option Terminal := Terminal.termClear ⟨vga, 0, 0⟩

def stroke (c : UInt8) : Stroke UInt8 :=
  if c = 0x0D then .carriageReturn else if c = 0x08 then .backspace
  else if c = 0x0A then .newline else .glyph c

def layout (text : List UInt8) : Layout 80 UInt8 :=
  text.foldl (fun l c => l.type 0x20 (by decide) (stroke c)) (.start 0x20)

def cellAt (term : Mem) (k : Nat) : UInt8 × UInt8 := (term (2 * k), term (2 * k + 1))

/-- The screen shows the last 25 rows, in white on black, and the cursor is where the layout has
it. -/
structure Displays (t : Terminal) (l : Layout 80 UInt8) : Prop where
  col : t.termCol = l.col
  row : l.top 25 + t.termRow = l.above.length
  row_lt : t.termRow < 25
  cells : ∀ i < 25, ∀ j : Fin 80, cellAt t.term (i * 80 + j) = (l.window 0x20 25 i j, 0x0F)

section Cells

variable {term : Mem} {index k : Nat} {c : UInt8}

theorem cellIndex_some (inside : k < 80 * 25) : cellIndex k = some k := if_pos inside

theorem cellByte_some (inside : k < 2 * (80 * 25)) : cellByte k = some k := by
  rw [cellByte, cellIndex_some (by omega), Option.map_some]

theorem colored (b : UInt8) :
    (b &&& (0xF0 : UInt8) ||| 15) &&& (0x0F : UInt8) ||| (0 : UInt8) <<< (4 : UInt8) = 0x0F ∧
      (b &&& (0x0F : UInt8) ||| (0 : UInt8) <<< (4 : UInt8)) &&& (0xF0 : UInt8) ||| 15 = 0x0F := by
  have bits : ∀ v : BitVec 8, (v &&& 0xF0 ||| 15) &&& 0x0F ||| 0 = 0x0F ∧
      (v &&& 0x0F ||| 0) &&& 0xF0 ||| 15 = 0x0F := by decide
  exact ⟨UInt8.toBitVec_inj.mp (bits b.toBitVec).1, UInt8.toBitVec_inj.mp (bits b.toBitVec).2⟩

theorem cellAt_store (first second : UInt8) :
    cellAt (store (store term (2 * index) first) (2 * index + 1) second) k =
      if k = index then (first, second) else cellAt term k := by
  unfold cellAt store
  split_ifs <;> first | rfl | omega

theorem cellAt_setBg_setFg :
    cellAt (setBg (setFg (setChar term index c) index 15) index 0) k =
      if k = index then (c, 0x0F) else cellAt term k := by
  rw [← cellAt_store, setBg, setFg, store_here, store_store, (colored _).1, setChar]

theorem cellAt_setFg_setBg :
    cellAt (setFg (setBg (setChar term index c) index 0) index 15) k =
      if k = index then (c, 0x0F) else cellAt term k := by
  rw [← cellAt_store, setFg, setBg, store_here, store_store, (colored _).2, setChar]

def WritesEntry (access : Mem → Nat → Option Mem) (c : UInt8) : Prop :=
  ∀ term, ∀ index < 80 * 25, ∃ term', access term index = some term' ∧
    ∀ k, cellAt term' k = if k = index then (c, 0x0F) else cellAt term k

theorem setEntry_writes (c : UInt8) : WritesEntry (fun term index => setEntry term c index) c := by
  intro term index inside
  refine ⟨_, ?_, fun k => cellAt_setBg_setFg⟩
  simp only [setEntry, cellIndex_some inside]
  rfl

theorem loop_writes {access : Mem → Nat → Option Mem} (writes : WritesEntry access c)
    {start count : Nat} (inside : start + count ≤ 80 * 25) (term : Mem) :
    ∃ term', (List.range count).foldlM (fun term i => access term (i + start)) term = some term' ∧
      ∀ k, cellAt term' k = if start ≤ k ∧ k < start + count then (c, 0x0F) else cellAt term k := by
  induction count with
  | zero =>
      refine ⟨term, rfl, fun k => ?_⟩
      rw [if_neg (by omega)]
  | succ count ih =>
      rcases ih (by omega) with ⟨before, ran, shown⟩
      rcases writes before (count + start) (by omega) with ⟨term', step, shown'⟩
      refine ⟨term', ?_, fun k => ?_⟩
      · simp [List.range_succ, List.foldlM_append, ran, step]
      · rw [shown', shown]
        split_ifs <;> first | rfl | omega

theorem copyCells_some (term : Mem) :
    ∃ term', copyCells term 0 (2 * 80) (2 * 80 * (25 - 1)) = some term' ∧
      ∀ k < 80 * (25 - 1), cellAt term' k = cellAt term (k + 80) := by
  have copied : copyCells term 0 (2 * 80) (2 * 80 * (25 - 1)) =
      some ((List.range (2 * 80 * (25 - 1))).foldl
        (fun term i => store term (0 + i) (term (0 + 2 * 80 + i))) term) := by
    refine foldlM_some (fun term i inside => ?_) term
    have bound := List.mem_range.mp inside
    have source : 2 * 80 + i < 2 * (80 * 25) := by omega
    have target : i < 2 * (80 * 25) := by omega
    simp only [cellByte_some source, cellByte_some target, Nat.zero_add]
    rfl
  rw [foldl_copy] at copied
  refine ⟨_, copied, fun k inside => ?_⟩
  have character : 0 ≤ 2 * k ∧ 2 * k < 0 + 2 * 80 * (25 - 1) := by omega
  have colour : 0 ≤ 2 * k + 1 ∧ 2 * k + 1 < 0 + 2 * 80 * (25 - 1) := by omega
  have below : 2 * k + 2 * 80 = 2 * (k + 80) := by omega
  have beside : 2 * k + 1 + 2 * 80 = 2 * (k + 80) + 1 := by omega
  simp only [cellAt, if_pos character, if_pos colour, below, beside]

end Cells

section Layouts

variable {t : Terminal} {l : Layout 80 UInt8} {c : UInt8}

/-- A character written at a column of the row of the cursor. -/
theorem Displays.set (shows : Displays t l) {col : Nat} (inside : col < 80) {term' : Mem}
    {col' : Nat} (col_le : col' ≤ 80)
    (written : ∀ k < 80 * 25, cellAt term' k = if k = t.termRow * 80 + col then (c, 0x0F)
      else cellAt t.term k) :
    Displays ⟨term', col', t.termRow⟩ ⟨l.above, TextLayout.set l.row col c, col', col_le⟩ := by
  have row := shows.row
  have row_lt := shows.row_lt
  refine ⟨rfl, row, row_lt, fun i low j => ?_⟩
  have narrow := j.isLt
  rw [written _ (by omega), shows.cells i low j]
  have same : l.top 25 =
      (⟨l.above, TextLayout.set l.row col c, col', col_le⟩ : Layout 80 UInt8).top 25 := rfl
  unfold Layout.window
  rw [← same, Layout.rowAt_set]
  by_cases here : i = t.termRow ∧ j.val = col
  · rw [if_pos (by omega), if_pos (by omega)]
  · rw [if_neg (by omega), if_neg (by omega)]

theorem write_shows (shows : Displays t l) (room : l.col < 80) (c : UInt8) :
    ∃ term', setEntry t.term c (t.termCol + t.termRow * 80) = some term' ∧
      Displays ⟨term', t.termCol + 1, t.termRow⟩ (l.write c room) := by
  have col := shows.col
  have row_lt := shows.row_lt
  rcases setEntry_writes c t.term (t.termCol + t.termRow * 80) (by omega) with ⟨term', ran, written⟩
  refine ⟨term', ran, ?_⟩
  have here := shows.set room room (fun k _ => by
    rw [written, col, Nat.add_comm])
  rw [col]
  exact here

theorem cellAt_setChar {term : Mem} {index k : Nat} (inBlack : (cellAt term index).2 = 0x0F) :
    cellAt (setChar term index c) k = if k = index then (c, 0x0F) else cellAt term k := by
  have same : setChar term index c = store (store term (2 * index) c) (2 * index + 1) 0x0F := by
    funext n
    unfold setChar
    by_cases here : n = 2 * index + 1
    · rw [here, store_here, store_elsewhere _ _ _ _ (by omega)]
      exact inBlack
    · rw [store_elsewhere _ (2 * index + 1) _ _ here]
  rw [same, cellAt_store]

theorem back_shows (shows : Displays t l) :
    ∃ t', t.termPutchar 0x08 = some t' ∧ Displays t' (l.back 0x20) := by
  have col_le := l.col_le
  rcases t with ⟨term, termCol, termRow⟩
  obtain rfl : termCol = l.col := shows.col
  have row_lt : termRow < 25 := shows.row_lt
  by_cases left : l.col > 0
  · have inside : termRow * 80 + (l.col - 1) < 80 * 25 := by omega
    have inBlack : (cellAt term (termRow * 80 + (l.col - 1))).2 = 0x0F :=
      congrArg Prod.snd (shows.cells termRow row_lt ⟨l.col - 1, by omega⟩)
    refine ⟨⟨setChar term (termRow * 80 + (l.col - 1)) 0x20, l.col - 1, termRow⟩, ?_, ?_⟩
    · simp [Terminal.termPutchar, left, cellIndex_some inside]
    · rw [Layout.back, if_pos left]
      exact shows.set (by omega) (by omega) (fun k _ => cellAt_setChar inBlack)
  · refine ⟨⟨term, l.col, termRow⟩, by simp [Terminal.termPutchar, left], ?_⟩
    rw [Layout.back, if_neg left]
    exact shows

/-- The row below the cursor: a row of the screen not reached yet, or the last one after the
others have moved up. -/
theorem newRow_shows (shows : Displays t l) :
    ∃ t', Terminal.scroll ⟨t.term, 0, t.termRow + 1⟩ = some t' ∧ Displays t' (l.newRow 0x20) := by
  have row := shows.row
  have row_lt := shows.row_lt
  have above : (l.newRow 0x20).above.length = l.above.length + 1 := by simp [Layout.newRow]
  unfold Layout.top at row
  by_cases last : t.termRow + 1 = 25
  · rcases copyCells_some t.term with ⟨moved, copied, shifted⟩
    have bottom : 24 * 80 + 80 ≤ 80 * 25 := by decide
    rcases loop_writes (setEntry_writes 0x20) bottom moved with ⟨cleared, ran, shown⟩
    refine ⟨⟨cleared, 0, 24⟩, ?_, rfl, ?_, Nat.lt_succ_self 24, fun i low j => ?_⟩
    · simp only [Terminal.scroll, last, if_true, copied, Option.bind_eq_bind, Option.bind_some]
      rw [ran]
      rfl
    · show (l.newRow 0x20).above.length + 1 - 25 + 24 = (l.newRow 0x20).above.length
      omega
    · have narrow := j.isLt
      rw [shown]
      by_cases bottom : i = 24
      · rw [if_pos (by omega)]
        have fresh : (l.newRow 0x20).top 25 + i = (l.newRow 0x20).above.length := by
          unfold Layout.top
          omega
        rw [Layout.window, fresh, Layout.rowAt_last]
        rfl
      · have moved : i * 80 + j.val + 80 = (i + 1) * 80 + j.val := by omega
        rw [if_neg (by omega), shifted _ (by omega), moved, shows.cells (i + 1) (by omega) j]
        have next : (l.newRow 0x20).top 25 + i = l.top 25 + (i + 1) := by
          unfold Layout.top
          omega
        rw [Layout.window, Layout.window, next, Layout.rowAt_newRow]
  · have next : (l.newRow 0x20).top 25 = l.top 25 := by
      unfold Layout.top
      omega
    refine ⟨⟨t.term, 0, t.termRow + 1⟩, if_neg last, rfl, ?_, ?_, fun i low j => ?_⟩
    · rw [next, above]
      show l.above.length + 1 - 25 + (t.termRow + 1) = l.above.length + 1
      omega
    · show t.termRow + 1 < 25
      omega
    · rw [Layout.window, next, Layout.rowAt_newRow]
      exact shows.cells i low j

theorem putchar_shows (shows : Displays t l) (c : UInt8) :
    ∃ t', t.termPutchar c = some t' ∧ Displays t' (l.type 0x20 (by decide) (stroke c)) := by
  have col := shows.col
  have col_le := l.col_le
  have onScreen : t.termRow ≠ 25 := by
    have row_lt := shows.row_lt
    omega
  unfold stroke
  by_cases carriage : c = 0x0D
  · rw [if_pos carriage]
    exact ⟨{ t with termCol := 0 }, if_pos carriage, rfl, shows.row, shows.row_lt, shows.cells⟩
  rw [if_neg carriage]
  by_cases backspace : c = 0x08
  · rw [if_pos backspace, backspace]
    exact back_shows shows
  rw [if_neg backspace]
  by_cases newline : c = 0x0A
  · rw [if_pos newline]
    rcases newRow_shows shows with ⟨t', scrolled, shows'⟩
    refine ⟨t', ?_, shows'⟩
    simp [Terminal.termPutchar, newline, scrolled]
  rw [if_neg newline]
  by_cases room : l.col < 80
  · rcases write_shows shows room c with ⟨term', ran, shows'⟩
    have before : t.termCol ≠ 80 := by omega
    refine ⟨⟨term', t.termCol + 1, t.termRow⟩, ?_, ?_⟩
    · simp [Terminal.termPutchar, Terminal.scroll, carriage, backspace, newline, onScreen,
        before, ran]
    · rw [Layout.type, Layout.place, dif_pos room]
      exact shows'
  · rcases newRow_shows shows with ⟨t₁, scrolled, shows₁⟩
    rcases write_shows shows₁ (Nat.zero_lt_succ 79) c with ⟨term', ran, shows'⟩
    have full : t.termCol = 80 := by omega
    refine ⟨⟨term', t₁.termCol + 1, t₁.termRow⟩, ?_, ?_⟩
    · simp [Terminal.termPutchar, carriage, backspace, newline, full, scrolled, ran]
    · rw [Layout.type, Layout.place, dif_neg room]
      exact shows'

theorem termInit_shows (vga : Mem) : ∃ t, termInit vga = some t ∧ Displays t (.start 0x20) := by
  have writes : WritesEntry (fun term i => do
      let index ← cellIndex i
      return setFg (setBg (setChar term index 0x20) index 0) index 15) 0x20 := by
    intro term index inside
    refine ⟨_, ?_, fun k => cellAt_setFg_setBg⟩
    simp only [cellIndex_some inside]
    rfl
  have whole : 0 + 80 * 25 ≤ 80 * 25 := by decide
  rcases loop_writes writes whole vga with ⟨cleared, ran, shown⟩
  refine ⟨⟨cleared, 0, 0⟩, ?_, rfl, rfl, Nat.zero_lt_succ 24, fun i low j => ?_⟩
  · simp only [termInit, Terminal.termClear]
    simp only [Nat.add_zero] at ran
    rw [ran]
    rfl
  · have narrow := j.isLt
    rw [shown, if_pos (by omega), Layout.window, Layout.rowAt_start]

theorem write_text_shows (text : List UInt8) (shows : Displays t l) :
    ∃ t', text.foldlM Terminal.termPutchar t = some t' ∧
      Displays t' (text.foldl (fun l c => l.type 0x20 (by decide) (stroke c)) l) := by
  induction text generalizing t l with
  | nil => exact ⟨t, rfl, shows⟩
  | cons c rest ih =>
      rcases putchar_shows shows c with ⟨next, put, shows'⟩
      rcases ih shows' with ⟨t', later, final⟩
      exact ⟨t', by simp [put, later], final⟩

/-- The screen shows the last 25 rows of whatever is printed, and no access leaves it. -/
theorem terminal_shows (vga : Mem) (text : List UInt8) :
    ∃ t, (do text.foldlM Terminal.termPutchar (← termInit vga)) = some t ∧
      Displays t (layout text) ∧
      t.termRow < 25 ∧ t.termCol ≤ 80 := by
  rcases termInit_shows vga with ⟨t₀, ready, shows₀⟩
  rcases write_text_shows text shows₀ with ⟨t, ran, shows⟩
  refine ⟨t, ?_, shows, shows.row_lt, ?_⟩
  · rw [ready]
    exact ran
  · rw [shows.col]
    exact (layout text).col_le

end Layouts

end PaintKernel
