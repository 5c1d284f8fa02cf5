import Mathlib

set_option autoImplicit false

/-! Text laid out in rows of a fixed width, without a last row, and the window of its last rows. -/

namespace TextLayout

inductive Stroke (α : Type) where
  | glyph (c : α)
  | newline
  | carriageReturn
  | backspace
  deriving DecidableEq, Repr

/-- The finished rows, oldest first, the row being written and the column of the next glyph. A
full row is left only when the next glyph comes. -/
structure Layout (width : Nat) (α : Type) where
  above : List (Fin width → α)
  row : Fin width → α
  col : Nat
  col_le : col ≤ width

def set {width : Nat} {α : Type} (row : Fin width → α) (col : Nat) (c : α) : Fin width → α :=
  fun j => if j.val = col then c else row j

namespace Layout

variable {width : Nat} {α : Type} (blank : α)

def start : Layout width α := ⟨[], fun _ => blank, 0, Nat.zero_le _⟩

def newRow (l : Layout width α) : Layout width α :=
  ⟨l.above ++ [l.row], fun _ => blank, 0, Nat.zero_le _⟩

def write (l : Layout width α) (c : α) (room : l.col < width) : Layout width α :=
  { l with row := set l.row l.col c, col := l.col + 1, col_le := room }

def back (l : Layout width α) : Layout width α :=
  if l.col > 0 then
    { l with
      row := set l.row (l.col - 1) blank, col := l.col - 1
      col_le := (Nat.sub_le _ _).trans l.col_le }
  else l

def place (positive : 0 < width) (l : Layout width α) (c : α) : Layout width α :=
  if room : l.col < width then l.write c room else (l.newRow blank).write c positive

def type (positive : 0 < width) (l : Layout width α) : Stroke α → Layout width α
  | .glyph c => l.place blank positive c
  | .newline => l.newRow blank
  | .carriageReturn => { l with col := 0, col_le := Nat.zero_le _ }
  | .backspace => l.back blank

def rowAt (l : Layout width α) (k : Nat) : Fin width → α :=
  (l.above ++ [l.row]).getD k fun _ => blank

def top (height : Nat) (l : Layout width α) : Nat := l.above.length + 1 - height

def window (height : Nat) (l : Layout width α) (i : Nat) : Fin width → α :=
  l.rowAt blank (l.top height + i)

variable {blank} {l : Layout width α} {height : Nat}

theorem rowAt_above {row : Fin width → α} {col k : Nat} {col_le : col ≤ width}
    (different : k ≠ l.above.length) :
    (⟨l.above, row, col, col_le⟩ : Layout width α).rowAt blank k = l.rowAt blank k := by
  rcases Nat.lt_or_gt_of_ne different with before | after
  · simp [rowAt, List.getElem?_append_left before]
  · simp [rowAt, List.getElem?_append, show ¬ k < l.above.length by omega,
      show k - l.above.length ≠ 0 by omega]

@[simp] theorem rowAt_last (l : Layout width α) : l.rowAt blank l.above.length = l.row := by
  simp [rowAt]

/-- A new row changes nothing: rows not reached are blank already. -/
theorem rowAt_newRow (l : Layout width α) (k : Nat) :
    (l.newRow blank).rowAt blank k = l.rowAt blank k := by
  rcases Nat.lt_or_ge k (l.above.length + 1) with inside | outside
  · have bound : k < (l.above ++ [l.row]).length := by simpa using inside
    simp only [rowAt, newRow, List.getD_eq_getElem?_getD, List.getElem?_append_left bound]
  · simp only [rowAt, newRow, List.getD_eq_getElem?_getD]
    rw [List.getElem?_append_right (by simpa using outside), List.getElem?_singleton,
      List.getElem?_eq_none (by simpa using outside)]
    split_ifs <;> rfl

theorem rowAt_start (k : Nat) : (start blank : Layout width α).rowAt blank k = fun _ => blank := by
  cases k <;> rfl

theorem rowAt_set {col col' k : Nat} {col_le : col' ≤ width} (c : α) (j : Fin width) :
    (⟨l.above, set l.row col c, col', col_le⟩ : Layout width α).rowAt blank k j =
      if k = l.above.length ∧ j.val = col then c else l.rowAt blank k j := by
  by_cases last : k = l.above.length
  · rw [last, rowAt_last, rowAt_last]
    simp [set]
  · rw [rowAt_above last, if_neg (fun both => last both.1)]

end Layout

end TextLayout
