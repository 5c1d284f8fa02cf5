import Mathlib
import PaintKernel.HexText
import PaintKernel.Mouse
import PaintKernel.Library.MachineInt
import PaintKernel.Library.Run

set_option autoImplicit false

/-! The paint program: its palette and what a click does. -/

namespace PaintKernel

open MachineInt Numerals Transition

def numColors : Nat := 41
def screenWidth : Nat := 1024
def screenHeight : Nat := 768
def white : UInt32 := 0xFFFFFF

def colorValues : Vector UInt32 numColors :=
  #v[0x800000, 0xFF0000, 0xFF8080, 0x804000, 0xFF8000, 0xFFC000, 0x808000, 0xFFFF00, 0xFFFF80,
    0x408000, 0x80FF00, 0xC0FF80, 0x008000, 0x00FF00, 0x80FF80, 0x008040, 0x00FF80, 0x80FFC0,
    0x008080, 0x00FFFF, 0x80FFFF, 0x004080, 0x0080FF, 0x80C0FF, 0x000080, 0x0000FF, 0x8080FF,
    0x400080, 0x8000FF, 0xC080FF, 0x800080, 0xFF00FF, 0xFF80FF, 0x800040, 0xFF0080, 0xFF80C0,
    0x000000, 0x404040, 0x808080, 0xC0C0C0, 0xFFFFFF]

inductive PaintCall where
  | drawRectangle (x y width height : Nat) (color : UInt32)
  | gwrite (x y : Nat) (color : UInt32) (text : List UInt8)
  | updateCursorBackground (color : UInt32)
deriving DecidableEq

structure PaintState where
  activeColor : UInt32
  calls : List PaintCall

inductive PaintStep where
  | goesOn (s : PaintState)
  /-- A store through a null pointer ends the program. -/
  | faults (s : PaintState)
  | exits (status : Nat)

/-- What `malloc(20)` returns; none is the null pointer. -/
abbrev ColorChars : Type := Option (Vector UInt8 20)

namespace PaintState

def draw (s : PaintState) (calls : List PaintCall) : PaintState :=
  { s with calls := s.calls ++ calls }

def writeColor (x : Nat) (chars : ColorChars) (s : PaintState) : PaintStep :=
  match chars.bind fun arr => itoaX s.activeColor.toUInt64 arr.toList 6 with
  | some arr => .goesOn (s.draw [.gwrite x 67 white (arr.take 6)])
  | none => .faults s

end PaintState

def gradient : List PaintCall :=
  (loopValues 0 (screenWidth + 1) 13).mapIdx fun k i =>
    .drawRectangle i 0 13 97 (0x707570 + 0x010101 * UInt32.ofNat k)

def colorSelection (colorValues : Vector UInt32 numColors) : List PaintCall :=
  (List.finRange numColors).map fun i : Fin numColors =>
    .drawRectangle (80 + i.val * 20) 25 15 50 colorValues[i]

def setupColorSelectionPane (chars : ColorChars) (s : PaintState) : PaintStep :=
  let s := s.draw gradient
  let s := s.draw [.drawRectangle 0 97 (screenWidth + 1) 3 white]
  let s := s.draw [.drawRectangle 900 25 80 50 0, .gwrite 920 46 0xC0C0C0 ("CLEAR".toList.map byte)]
  let s := s.draw (colorSelection colorValues)
  let s := s.draw [.drawRectangle 25 25 50 40 s.activeColor]
  s.writeColor 26 chars

namespace PaintStep

def andThen (result : PaintStep) (next : PaintState → PaintStep) : PaintStep :=
  match result with
  | .goesOn s => next s
  | .faults s => .faults s
  | .exits status => .exits status

def activeColor : PaintStep → Option UInt32
  | .goesOn s => some s.activeColor
  | .faults s => some s.activeColor
  | .exits _ => none

end PaintStep

def selectColor (potentialIndex : Int) (chars : ColorChars) (s : PaintState) : PaintStep :=
  if inside : 0 ≤ potentialIndex ∧ potentialIndex < numColors then
    let s := { s with activeColor := colorValues[potentialIndex.toNat] }
    (s.draw [.drawRectangle 25 25 50 40 s.activeColor]).writeColor 25 chars
  else .goesOn s

def clearCanvas (xPos : Int) (chars : ColorChars) (s : PaintState) : PaintStep :=
  if xPos ≥ 900 ∧ xPos ≤ 980 then
    setupColorSelectionPane chars (s.draw [.drawRectangle 0 100 screenWidth (screenHeight - 100) 0])
  else .goesOn s

/-- The body of the loop between the two system calls; an overflow of the subtraction is undefined.
-/
def handleMouse (userMouse : MouseData) (chars chars' : ColorChars) (s : PaintState) :
    Option PaintStep :=
  if userMouse.leftClick ∧ userMouse.yPos > 100 then
    some (.goesOn (s.draw [.updateCursorBackground s.activeColor]))
  else if userMouse.leftClick ∧ userMouse.yPos ≤ 75 ∧ userMouse.yPos ≥ 25 then do
    let dividend ← int32 (userMouse.xPos - 80)
    let potentialIndex := dividend.tdiv 20
    return (selectColor potentialIndex chars s).andThen (clearCanvas userMouse.xPos chars')
  else some (.goesOn s)

def paintStart (userMouse : Bool) (chars : ColorChars) : PaintStep :=
  if userMouse then setupColorSelectionPane chars ⟨0xFF0000, []⟩ else .exits 1

def paintRound (key : UInt8) (userMouse : MouseData) (chars chars' : ColorChars) (s : PaintState) :
    Option PaintStep :=
  if key ≠ byte 'q' ∧ key ≠ byte 'Q' then handleMouse userMouse chars chars' s else some (.exits 0)

section Selection

variable {s : PaintState} {chars chars' : ColorChars} {x : Nat} {xPos potentialIndex : Int}
  {color : UInt32}

theorem PaintState.writeColor_activeColor (s : PaintState) (x : Nat) (chars : ColorChars) :
    (s.writeColor x chars).activeColor = some s.activeColor := by
  unfold PaintState.writeColor
  split <;> rfl

theorem setupColorSelectionPane_activeColor (s : PaintState) (chars : ColorChars) :
    (setupColorSelectionPane chars s).activeColor = some s.activeColor :=
  PaintState.writeColor_activeColor _ 26 chars

theorem clearCanvas_activeColor (s : PaintState) (xPos : Int) (chars : ColorChars) :
    (clearCanvas xPos chars s).activeColor = some s.activeColor := by
  unfold clearCanvas
  split
  · exact setupColorSelectionPane_activeColor _ chars
  · rfl

theorem PaintStep.andThen_activeColor {result : PaintStep} {next : PaintState → PaintStep}
    (kept : ∀ s, (next s).activeColor = some s.activeColor) :
    (result.andThen next).activeColor = result.activeColor := by
  cases result with
  | goesOn s => exact kept s
  | faults s => rfl
  | exits status => rfl

theorem selectColor_inside (inside : 0 ≤ potentialIndex ∧ potentialIndex < numColors) :
    (selectColor potentialIndex chars s).activeColor = some colorValues[potentialIndex.toNat] := by
  rw [selectColor, dif_pos inside]
  exact PaintState.writeColor_activeColor _ 25 chars

theorem selectColor_outside (outside : ¬(0 ≤ potentialIndex ∧ potentialIndex < numColors)) :
    (selectColor potentialIndex chars s).activeColor = some s.activeColor := by
  rw [selectColor, dif_neg outside]
  rfl

end Selection

/-- The cell of colour `i` in the layout of `color_selection`. -/
def InCell (i : Fin numColors) (x : Int) : Prop :=
  80 + 20 * (i.val : Int) ≤ x ∧ x < 80 + 20 * ((i.val : Int) + 1)

instance (i : Fin numColors) (x : Int) : Decidable (InCell i x) :=
  inferInstanceAs (Decidable (_ ∧ _))

def colorAfter (x y : Int) (right middle : Bool) (chars chars' : ColorChars) (s : PaintState) :
    Option UInt32 :=
  (handleMouse ⟨x, y, true, right, middle⟩ chars chars' s).bind PaintStep.activeColor

/-- A left click at `x` in the band of the palette selects colour `i`, whatever was active, if and
only if it hits the cell of colour `i`; outside all cells it keeps the active colour. -/
def HitTestMatches (x : Int32) : Prop :=
  ∀ (y : Int32) (right middle : Bool), 25 ≤ y.toInt → y.toInt ≤ 75 →
    (∀ i, (∀ chars chars' s, colorAfter x.toInt y.toInt right middle chars chars' s =
      some colorValues[i]) ↔
      InCell i x.toInt) ∧
    ((∀ i, ¬InCell i x.toInt) →
      ∀ chars chars' s, colorAfter x.toInt y.toInt right middle chars chars' s = some s.activeColor)

section HitTest

variable {x y : Int} {right middle : Bool} {chars chars' : ColorChars} {s : PaintState}

theorem colorAfter_eq (above : 25 ≤ y) (below : y ≤ 75) :
    colorAfter x y right middle chars chars' s =
      (int32 (x - 80)).bind fun dividend =>
        (selectColor (dividend.tdiv 20) chars s).activeColor := by
  have canvas : ¬(true = true ∧ y > 100) := by omega
  rw [colorAfter, handleMouse, if_neg canvas, if_pos ⟨rfl, below, above⟩]
  cases int32 (x - 80) with
  | none => rfl
  | some dividend => exact PaintStep.andThen_activeColor fun s => clearCanvas_activeColor s x chars'

theorem quotient_left (left : x ≤ 80) : (x - 80).tdiv 20 = -((80 - x) / 20) := by
  rw [← Int.neg_sub, Int.neg_tdiv, Int.tdiv_eq_ediv_of_nonneg (by omega)]

theorem quotient_iff (i : Fin numColors) (apart : ¬(60 < x ∧ x < 80)) :
    (x - 80).tdiv 20 = (i.val : Int) ↔ InCell i x := by
  unfold InCell
  by_cases behind : 80 ≤ x
  · rw [Int.tdiv_eq_ediv_of_nonneg (by omega)]
    omega
  · rw [quotient_left (by omega)]
    omega

theorem colorValues_injective : ∀ i j : Fin numColors, colorValues[i] = colorValues[j] →
    i = j := by decide

theorem selectColor_index (i : Fin numColors) (chars : ColorChars) (s : PaintState) :
    (selectColor i.val chars s).activeColor = some colorValues[i] :=
  selectColor_inside ⟨Int.natCast_nonneg _, Int.ofNat_lt.mpr i.isLt⟩

theorem index_cases (index : Int) :
    (∃ i : Fin numColors, index = i.val) ∨ ¬(0 ≤ index ∧ index < numColors) := by
  by_cases inside : 0 ≤ index ∧ index < numColors
  · exact Or.inl ⟨⟨index.toNat, by omega⟩, (Int.toNat_of_nonneg inside.1).symm⟩
  · exact Or.inr inside

theorem hitTest_matches {x : Int32} (low : -2 ^ 31 + 80 ≤ x.toInt)
    (apart : ¬(60 < x.toInt ∧ x.toInt < 80)) :
    HitTestMatches x := by
  intro y right middle above below
  have exact : int32 (x.toInt - 80) = some (x.toInt - 80) := by
    have high := x.toInt_lt
    exact int32_some (by omega) (by omega)
  have after (chars chars' : ColorChars) (s : PaintState) :
      colorAfter x.toInt y.toInt right middle chars chars' s =
      (selectColor ((x.toInt - 80).tdiv 20) chars s).activeColor := by
    rw [colorAfter_eq above below, exact, Option.bind_some]
  rcases index_cases ((x.toInt - 80).tdiv 20) with ⟨j, here⟩ | outside
  · have hit : InCell j x.toInt := (quotient_iff j apart).mp here
    constructor
    · intro i
      constructor
      · intro selects
        have same := selects none none ⟨0, []⟩
        rw [after, here, selectColor_index] at same
        exact colorValues_injective j i (Option.some.inj same) ▸ hit
      · intro inside chars chars' s
        rw [after, (quotient_iff i apart).mpr inside, selectColor_index]
    · intro misses
      exact absurd hit (misses j)
  · constructor
    · intro i
      constructor
      · intro selects
        -- another colour than the one of the cell stays active
        have same := selects none none ⟨colorValues[i] + 1, []⟩
        rw [after, selectColor_outside outside] at same
        exact absurd (Option.some.inj same) (by simp)
      · intro inside
        have index := (quotient_iff i apart).mpr inside
        exact absurd ⟨index ▸ Int.natCast_nonneg _, index ▸ Int.ofNat_lt.mpr i.isLt⟩ outside
    · intro _ chars chars' s
      rw [after, selectColor_outside outside]

theorem HitTestMatches.kept {x : Int32} (matching : HitTestMatches x) (left : x.toInt < 80)
    (s : PaintState) :
    (int32 (x.toInt - 80)).bind (fun dividend =>
      (selectColor (dividend.tdiv 20) none s).activeColor) =
      some s.activeColor := by
  have above : 25 ≤ (50 : Int32).toInt := by decide
  have below : (50 : Int32).toInt ≤ 75 := by decide
  have outside (i : Fin numColors) : ¬InCell i x.toInt := by
    unfold InCell
    omega
  rw [← colorAfter_eq above below]
  exact (matching 50 false false above below).2 outside none none s

theorem hitTest_overflow {x : Int32} (small : x.toInt < -2 ^ 31 + 80) : ¬HitTestMatches x := by
  intro matching
  have overflow : int32 (x.toInt - 80) = none := if_neg (by omega)
  have unchanged := matching.kept (by omega) ⟨0, []⟩
  rw [overflow] at unchanged
  cases unchanged

/-- In the 19 columns in front of the palette the quotient is 0, the index of the first colour. -/
theorem hitTest_margin {x : Int32} (between : 60 < x.toInt ∧ x.toInt < 80) : ¬HitTestMatches x := by
  intro matching
  have exact : int32 (x.toInt - 80) = some (x.toInt - 80) := int32_some (by omega) (by omega)
  have first : (x.toInt - 80).tdiv 20 = ((⟨0, by decide⟩ : Fin numColors).val : Int) := by
    rw [quotient_left (by omega)]
    show -((80 - x.toInt) / 20) = 0
    omega
  have unchanged := matching.kept between.2 ⟨0xFF0000, []⟩
  rw [exact, Option.bind_some, first, selectColor_index] at unchanged
  revert unchanged
  decide

/-- The hit test matches the layout except in the columns in front of the palette and where the
subtraction overflows. -/
theorem hitTest_matches_iff (x : Int32) :
    HitTestMatches x ↔ -2 ^ 31 + 80 ≤ x.toInt ∧ ¬(60 < x.toInt ∧ x.toInt < 80) := by
  constructor
  · intro matching
    constructor
    · by_contra small
      exact hitTest_overflow (by omega) matching
    · intro between
      exact hitTest_margin between matching
  · intro condition
    exact hitTest_matches condition.1 condition.2

theorem hitTest_left_margin : ¬HitTestMatches 75 := hitTest_margin (by decide)

theorem drawn_selected {x₀ y₀ width height : Nat} {color : UInt32}
    (drawn : .drawRectangle x₀ y₀ width height color ∈ colorSelection colorValues)
    (across : x₀ ≤ x ∧ x < x₀ + width) (down : y₀ ≤ y ∧ y < y₀ + height) :
    colorAfter x y right middle chars chars' s = some color := by
  rw [colorSelection, List.mem_map] at drawn
  rcases drawn with ⟨i, _, same⟩
  cases same
  have inside : InCell i x := by
    unfold InCell
    omega
  have small := i.isLt
  unfold numColors at small
  have exact : int32 (x - 80) = some (x - 80) := int32_some (by omega) (by omega)
  rw [colorAfter_eq (by omega) (by omega), exact, Option.bind_some,
    (quotient_iff i (by omega)).mpr inside, selectColor_index]

end HitTest

/-! What the program shows of its active colour. -/

def PaintCall.preview : PaintCall → Option UInt32
  | .drawRectangle 25 25 50 40 color => some color
  | _ => none

def PaintCall.label : PaintCall → Option (List UInt8)
  | .gwrite _ 67 _ text => some text
  | _ => none

def colorText (color : UInt32) : List UInt8 := (lastDigits 16 6 color.toNat).map (digitByte 'A')

/-- The last rectangle and the last text are those of the active colour, which is one of the
palette. -/
structure ShowsColor (s : PaintState) : Prop where
  known : ∃ i : Fin numColors, colorValues[i] = s.activeColor
  preview : (s.calls.filterMap PaintCall.preview).getLast? = some s.activeColor
  label : (s.calls.filterMap PaintCall.label).getLast? = some (colorText s.activeColor)

structure PaintRound where
  key : UInt8
  userMouse : MouseData
  chars : ColorChars
  chars' : ColorChars

def PaintRounds : PaintState → PaintRound → PaintState → Prop := fun s round s' =>
  paintRound round.key round.userMouse round.chars round.chars' s = some (.goesOn s')

section Showing

variable {s s' : PaintState} {chars chars' : ColorChars} {x : Nat} {calls : List PaintCall}

theorem colorValues_small : ∀ i : Fin numColors, colorValues[i].toNat < 16 ^ 6 := by decide

theorem colorText_length (color : UInt32) : (colorText color).length = 6 := by
  rw [colorText, List.length_map, lastDigits_length]

theorem writeColor_known (known : ∃ i : Fin numColors, colorValues[i] = s.activeColor) (x : Nat)
    (arr : Vector UInt8 20) :
    s.writeColor x (some arr) =
      .goesOn (s.draw [.gwrite x 67 white (colorText s.activeColor)]) := by
  have room : (digits 16 s.activeColor.toUInt64.toNat).length ≤ 6 := by
    obtain ⟨i, color⟩ := known
    rw [UInt32.toNat_toUInt64, ← color]
    exact (digits_length_le (by decide) _ (by decide)).mpr (colorValues_small i)
  have text : itoaX s.activeColor.toUInt64 arr.toList 6 =
      some (colorText s.activeColor ++ 0 :: arr.toList.drop 7) := by
    have written := itoaX_eq s.activeColor.toUInt64 (show (6 : Int32).toInt = (6 : Nat) by decide)
      room (by decide)
      (show 6 < arr.toList.length by simp)
    rwa [UInt32.toNat_toUInt64] at written
  have front : (colorText s.activeColor ++ 0 :: arr.toList.drop 7).take 6 =
      colorText s.activeColor :=
    List.take_left' (colorText_length s.activeColor)
  simp only [PaintState.writeColor, Option.bind_some, text, front]

theorem writeColor_shows (known : ∃ i : Fin numColors, colorValues[i] = s.activeColor)
    (preview : (s.calls.filterMap PaintCall.preview).getLast? = some s.activeColor)
    (goes : s.writeColor x chars = .goesOn s') : ShowsColor s' := by
  cases chars with
  | none => cases goes
  | some arr =>
      rw [writeColor_known known] at goes
      cases goes
      refine ⟨known, ?_, ?_⟩
      · rw [PaintState.draw, List.filterMap_append]
        simpa [PaintCall.preview] using preview
      · simp [PaintState.draw, PaintCall.label]

theorem setupColorSelectionPane_shows (known : ∃ i : Fin numColors, colorValues[i] = s.activeColor)
    (goes : setupColorSelectionPane chars s = .goesOn s') : ShowsColor s' := by
  apply writeColor_shows _ _ goes
  · exact known
  · simp only [PaintState.draw, List.filterMap_append]
    exact List.getLast?_concat

theorem paintStart_shows {userMouse : Bool} (goes : paintStart userMouse chars = .goesOn s) :
    ShowsColor s := by
  cases userMouse with
  | false => cases goes
  | true =>
      apply setupColorSelectionPane_shows _ goes
      exact ⟨⟨1, by decide⟩, rfl⟩

theorem ShowsColor.draw (shows : ShowsColor s)
    (plain : ∀ call ∈ calls, call.preview = none ∧ call.label = none) :
    ShowsColor (s.draw calls) := by
  have previews : calls.filterMap PaintCall.preview = [] :=
    List.filterMap_eq_nil_iff.mpr fun call member => (plain call member).1
  have labels : calls.filterMap PaintCall.label = [] :=
    List.filterMap_eq_nil_iff.mpr fun call member => (plain call member).2
  refine ⟨shows.known, ?_, ?_⟩
  · rw [PaintState.draw, List.filterMap_append, previews, List.append_nil]
    exact shows.preview
  · rw [PaintState.draw, List.filterMap_append, labels, List.append_nil]
    exact shows.label

theorem selectColor_shows {potentialIndex : Int} (shows : ShowsColor s)
    (goes : selectColor potentialIndex chars s = .goesOn s') : ShowsColor s' := by
  unfold selectColor at goes
  split at goes
  · apply writeColor_shows _ _ goes
    · rename_i inside
      exact ⟨⟨potentialIndex.toNat, by omega⟩, rfl⟩
    · simp [PaintState.draw, PaintCall.preview]
  · cases goes
    exact shows

theorem clearCanvas_shows {xPos : Int} (shows : ShowsColor s)
    (goes : clearCanvas xPos chars s = .goesOn s') :
    ShowsColor s' := by
  unfold clearCanvas at goes
  split at goes
  · apply setupColorSelectionPane_shows _ goes
    exact shows.known
  · cases goes
    exact shows

theorem PaintStep.andThen_goesOn {result : PaintStep} {next : PaintState → PaintStep}
    (goes : result.andThen next = .goesOn s') : ∃ s, result = .goesOn s ∧ next s = .goesOn s' := by
  cases result with
  | goesOn s => exact ⟨s, rfl, goes⟩
  | faults s => cases goes
  | exits status => cases goes

theorem paintRound_shows {round : PaintRound} (shows : ShowsColor s)
    (goes : PaintRounds s round s') :
    ShowsColor s' := by
  unfold PaintRounds paintRound at goes
  split at goes
  · unfold handleMouse at goes
    split at goes
    · cases goes
      exact shows.draw (by simp [PaintCall.preview, PaintCall.label])
    · split at goes
      · simp only [Option.bind_eq_bind, Option.bind_eq_some_iff, Option.pure_def,
          Option.some.injEq] at goes
        obtain ⟨dividend, _, clicked⟩ := goes
        obtain ⟨middle, selected, cleared⟩ := PaintStep.andThen_goesOn clicked
        exact clearCanvas_shows (selectColor_shows shows selected) cleared
      · cases goes
        exact shows
  · cases goes

/-- Whatever is clicked, the rectangle and the text that were drawn last are those of the active
colour. -/
theorem paint_shows_color {userMouse : Bool} {rounds : List PaintRound}
    (start : paintStart userMouse chars = .goesOn s) (run : Run PaintRounds s rounds s') :
    ShowsColor s' := by
  have preserved (s : PaintState) (round : PaintRound) (s' : PaintState) (shows : ShowsColor s)
      (goes : PaintRounds s round s') : ShowsColor s' := paintRound_shows shows goes
  exact invariant preserved run (paintStart_shows start)

end Showing

end PaintKernel
