import Mathlib
import PaintKernel.Display
import PaintKernel.Paint

set_option autoImplicit false

/-! What the paint program leaves on its canvas, the rows below the palette. -/

namespace PaintKernel

open ByteMemory Raster LastWriter Transition

namespace Framebuffer

variable (fb : Framebuffer)

def drawPixelStores (x y : Nat) (r g b : UInt8) : List (Nat × UInt8) :=
  let pixel := x * (fb.bpp / 8) + y * fb.pitch
  [(pixel % 2 ^ 32, b), ((pixel + 1) % 2 ^ 32, g), ((pixel + 2) % 2 ^ 32, r)]

def sysDrawStores (x y width height color : Nat) : List (Nat × UInt8) :=
  if width = 1 ∧ height = 1 then fb.drawPixelStores x y (red color) (green color) (blue color)
  else fb.kdrawStores x y width height color

def gkprintStores (beyond : Nat → UInt8) (c : UInt8) (x y color : Nat) : List (Nat × UInt8) :=
  (List.range 8).flatMap fun w => (List.range 8).flatMap fun h =>
    let multiplier := multiplier beyond c w h
    fb.drawPixelStores ((w + x) % 2 ^ 32) ((h + y) % 2 ^ 32)
      (UInt8.ofNat (multiplier * (red color).toNat))
      (UInt8.ofNat (multiplier * (green color).toNat))
        (UInt8.ofNat (multiplier * (blue color).toNat))

def sysGwriteStores (beyond : Nat → UInt8) (x y color : Nat) (text : List UInt8) :
    List (Nat × UInt8) :=
  (List.range text.length).flatMap fun i =>
    fb.gkprintStores beyond (text.getD i 0) ((x + 8 * i) % 2 ^ 32) y color

end Framebuffer

/-- What a system call of the program stores: in the framebuffer or, for `update_saved_pixels`, in
its array. -/
def PaintCall.accesses (fb : Framebuffer) (beyond : Nat → UInt8) : PaintCall → List Access
  | drawRectangle x y width height color =>
      (fb.sysDrawStores x y width height color.toNat).map fun st => .store st.1 st.2
  | gwrite x y color text =>
      (fb.sysGwriteStores beyond x y color.toNat text).map fun st => .store st.1 st.2
  | updateCursorBackground color => (List.range 25).map fun i => .remember i color.toNat

def canvasClear : PaintCall := .drawRectangle 0 100 screenWidth (screenHeight - 100) 0

namespace PaintCall

def OnToolbar : PaintCall → Prop
  | drawRectangle _ y width height _ => y + height ≤ 100 ∧ width < 2 ^ 16 ∧ 1 < width
  | gwrite x y _ text => y + 8 ≤ 100 ∧ x + 8 * text.length ≤ screenWidth
  | updateCursorBackground _ => False

inductive OfPaint : PaintCall → Prop where
  | toolbar {call : PaintCall} (above : call.OnToolbar) : OfPaint call
  | clear : OfPaint canvasClear
  | stroke (i : Fin numColors) : OfPaint (.updateCursorBackground (colorValues.get i))

end PaintCall

section Stores

variable {fb : Framebuffer} {x y width height color : Nat} {r g b : UInt8} {st : Nat × UInt8}

theorem drawPixelStores_draw (screen : Mem) :
    (fb.drawPixelStores x y r g b).foldl (fun m st => store m st.1 st.2) screen =
      fb.drawPixel x y r g b screen :=
  rfl

theorem sysDrawStores_draw (screen : Mem) :
    (fb.sysDrawStores x y width height color).foldl (fun m st => store m st.1 st.2) screen =
      fb.sysDrawRectangle x y width height color screen := by
  unfold Framebuffer.sysDrawStores Framebuffer.sysDrawRectangle
  split
  · exact drawPixelStores_draw screen
  · exact kdrawStores_draw screen

theorem sysGwriteStores_draw (beyond : Nat → UInt8) (text : List UInt8) (screen : Mem) :
    (fb.sysGwriteStores beyond x y color text).foldl (fun m st => store m st.1 st.2) screen =
      fb.sysGwrite beyond x y color (text.getD · 0) text.length screen := by
  simp only [Framebuffer.sysGwriteStores, Framebuffer.gkprintStores, List.foldl_flatMap,
    drawPixelStores_draw]
  rfl

theorem kdrawStores_place (color : Nat) (member : st ∈ fb.kdrawStores x y width height color) :
    ∃ v, (st.1, v) ∈ fb.kdrawStores x y width height 0xFFFFFF := by
  unfold Framebuffer.kdrawStores at member ⊢
  split at member
  · cases member
  · rename_i inside
    rw [if_neg inside]
    simp only [pixelStores, List.mem_flatMap, List.mem_cons, List.not_mem_nil, or_false] at member ⊢
    obtain ⟨row, rows, column, columns, place⟩ := member
    rcases place with rfl | rfl | rfl
    · exact ⟨_, row, rows, column, columns, .inl rfl⟩
    · exact ⟨_, row, rows, column, columns, .inr (.inl rfl)⟩
    · exact ⟨_, row, rows, column, columns, .inr (.inr rfl)⟩

theorem kdrawStores_rows (narrow : width < 2 ^ 16) (short : height < 2 ^ 16)
    (member : st ∈ fb.kdrawStores x y width height color) : fb.layout.row st.1 < y + height := by
  obtain ⟨v, white⟩ := kdrawStores_place color member
  obtain ⟨_, _, ⟨_, rows⟩, _⟩ := kdrawStores_inside narrow short white
  exact rows.2

theorem drawPixelStores_row (inside : x < fb.width) (below : y < fb.height)
    (member : st ∈ fb.drawPixelStores x y r g b) : fb.layout.row st.1 = y := by
  have last := offset_lt inside below
  have size := fb.size_lt
  have three := three_le_step fb
  have place : x * (fb.bpp / 8) + y * fb.pitch = fb.layout.offset x y := rfl
  have row (c : Nat) (small : c < 3) : fb.layout.row ((fb.layout.offset x y + c) % 2 ^ 32) = y := by
    rw [Nat.mod_eq_of_lt (by omega)]
    exact Layout.row_offset (r := fb.layout) inside (lt_of_lt_of_le small three)
  simp only [Framebuffer.drawPixelStores, place, List.mem_cons, List.not_mem_nil,
    or_false] at member
  rcases member with rfl | rfl | rfl
  · exact row 0 (by decide)
  · exact row 1 (by decide)
  · exact row 2 (by decide)

theorem sysGwriteStores_rows {beyond : Nat → UInt8} {text : List UInt8}
    (wide : x + 8 * text.length ≤ fb.width) (tall : y + 8 ≤ fb.height)
    (member : st ∈ fb.sysGwriteStores beyond x y color text) :
    fb.layout.row st.1 < y + 8 := by
  have widths := fb.width_lt
  have heights := fb.height_lt
  simp only [Framebuffer.sysGwriteStores, Framebuffer.gkprintStores, List.mem_flatMap,
    List.mem_range] at member
  obtain ⟨i, character, w, narrow, h, short, member⟩ := member
  rw [drawPixelStores_row (by omega) (by omega) member]
  omega

end Stores

/-! The calls of a run. -/

/-- Each stroke has the colour of the rectangle beside the palette that was drawn last before it. -/
def StrokesMatch (calls : List PaintCall) : Prop :=
  ∀ before color after, calls = before ++ .updateCursorBackground color :: after →
    (before.filterMap PaintCall.preview).getLast? = some color

structure Painted (s : PaintState) : Prop where
  shows : ShowsColor s
  calls : ∀ call ∈ s.calls, call.OfPaint
  strokes : StrokesMatch s.calls

def PaintCall.Plain (call : PaintCall) : Prop := call.OnToolbar ∨ call = canvasClear

def AddsPlain (s : PaintState) (result : PaintStep) : Prop :=
  ∀ s', result = .goesOn s' → ∃ calls, s'.calls = s.calls ++ calls ∧ ∀ call ∈ calls, call.Plain

section Calls

variable {s s' : PaintState} {chars chars' : ColorChars} {calls plain : List PaintCall}
  {color : UInt32} {x : Nat}

theorem PaintCall.Plain.ofPaint {call : PaintCall} (isPlain : call.Plain) : call.OfPaint := by
  rcases isPlain with above | rfl
  · exact .toolbar above
  · exact .clear

theorem PaintCall.Plain.not_stroke {call : PaintCall} (isPlain : call.Plain) :
    call ≠ .updateCursorBackground color := by
  rintro rfl
  rcases isPlain with above | clear
  · exact above
  · cases clear

theorem StrokesMatch.append (strokes : StrokesMatch calls) (isPlain : ∀ call ∈ plain, call.Plain) :
    StrokesMatch (calls ++ plain) := by
  intro before color after parts
  rcases List.append_eq_append_iff.mp parts with ⟨between, _, rest⟩ | ⟨between, first, rest⟩
  · have member : PaintCall.updateCursorBackground color ∈ plain := by simp [rest]
    exact absurd rfl (isPlain _ member).not_stroke
  · cases between with
    | nil =>
        rw [List.nil_append] at rest
        exact absurd rfl (isPlain _ (rest ▸ List.mem_cons_self)).not_stroke
    | cons call between =>
        rw [List.cons_append] at rest
        cases rest
        exact strokes before color between first

theorem StrokesMatch.stroke (strokes : StrokesMatch calls)
    (active : (calls.filterMap PaintCall.preview).getLast? = some color) :
    StrokesMatch (calls ++ [.updateCursorBackground color]) := by
  intro before color' after parts
  rcases List.append_eq_append_iff.mp parts with ⟨between, first, rest⟩ | ⟨between, first, rest⟩
  · cases between with
    | nil =>
        rw [List.append_nil] at first
        cases rest
        rwa [first]
    | cons call between => simp at rest
  · cases between with
    | nil =>
        rw [List.append_nil] at first
        cases rest
        rwa [← first]
    | cons call between =>
        rw [List.cons_append] at rest
        cases rest
        exact strokes before color' between first

theorem addsPlain_draw (calls : List PaintCall) (isPlain : ∀ call ∈ calls, call.Plain) :
    AddsPlain s (.goesOn (s.draw calls)) := by
  intro s' goes
  cases goes
  exact ⟨calls, rfl, isPlain⟩

theorem addsPlain_refl (s : PaintState) : AddsPlain s (.goesOn s) := by
  intro s' goes
  cases goes
  exact ⟨[], (List.append_nil _).symm, by simp⟩

theorem AddsPlain.trans {result : PaintStep} (first : AddsPlain s (.goesOn s'))
    (later : AddsPlain s' result) :
    AddsPlain s result := by
  intro last goes
  obtain ⟨calls, added, isPlain⟩ := first s' rfl
  obtain ⟨calls', added', isPlain'⟩ := later last goes
  refine ⟨calls ++ calls', ?_, ?_⟩
  · rw [added', added, List.append_assoc]
  · exact List.forall_mem_append.mpr ⟨isPlain, isPlain'⟩

theorem AddsPlain.andThen {result : PaintStep} {next : PaintState → PaintStep}
    (first : AddsPlain s result) (later : ∀ s', result = .goesOn s' → AddsPlain s' (next s')) :
    AddsPlain s (result.andThen next) := by
  intro last goes
  obtain ⟨middle, here, there⟩ := PaintStep.andThen_goesOn goes
  exact AddsPlain.trans (here ▸ first) (later middle here) last there

theorem addsPlain_writeColor (known : ∃ i : Fin numColors, colorValues.get i = s.activeColor)
    (left : x ≤ 900) :
    AddsPlain s (s.writeColor x chars) := by
  cases chars with
  | none =>
      intro s' goes
      cases goes
  | some arr =>
      rw [writeColor_known known]
      apply addsPlain_draw
      intro call member
      rw [List.mem_singleton.mp member]
      have text := colorText_length s.activeColor
      refine .inl ⟨by decide, ?_⟩
      rw [text, screenWidth]
      omega

theorem gradient_plain : ∀ call ∈ gradient, call.Plain := by
  intro call member
  rw [gradient, List.mem_mapIdx] at member
  obtain ⟨k, _, rfl⟩ := member
  exact .inl ⟨by decide, by decide, by decide⟩

theorem colorSelection_plain : ∀ call ∈ colorSelection colorValues, call.Plain := by
  intro call member
  rw [colorSelection, List.mem_map] at member
  obtain ⟨i, _, rfl⟩ := member
  exact .inl ⟨by decide, by decide, by decide⟩

theorem addsPlain_setup (known : ∃ i : Fin numColors, colorValues.get i = s.activeColor) :
    AddsPlain s (setupColorSelectionPane chars s) := by
  apply (addsPlain_draw _ gradient_plain).trans
  apply (addsPlain_draw [.drawRectangle 0 97 (screenWidth + 1) 3 white] _).trans
  · apply (addsPlain_draw [.drawRectangle 900 25 80 50 0,
      .gwrite 920 46 0xC0C0C0 ("CLEAR".toList.map byte)] _).trans
    · apply (addsPlain_draw _ colorSelection_plain).trans
      apply (addsPlain_draw [.drawRectangle 25 25 50 40 s.activeColor] _).trans
      · exact addsPlain_writeColor known (by decide)
      · intro call member
        rw [List.mem_singleton.mp member]
        exact .inl ⟨by decide, by decide, by decide⟩
    · intro call member
      rw [List.mem_cons, List.mem_singleton] at member
      rcases member with rfl | rfl
      · exact .inl ⟨by decide, by decide, by decide⟩
      · exact .inl ⟨by decide, by decide⟩
  · intro call member
    rw [List.mem_singleton.mp member]
    exact .inl ⟨by decide, by decide, by decide⟩

theorem addsPlain_preview (color : UInt32) :
    AddsPlain s (.goesOn (s.draw [.drawRectangle 25 25 50 40 color])) := by
  apply addsPlain_draw
  intro call member
  rw [List.mem_singleton.mp member]
  exact .inl ⟨by decide, by decide, by decide⟩

theorem addsPlain_selectColor (index : Int) : AddsPlain s (selectColor index chars s) := by
  unfold selectColor
  split
  · rename_i inside
    have selected : ∃ i : Fin numColors, colorValues[i] = colorValues[index.toNat] :=
      ⟨⟨index.toNat, by omega⟩, rfl⟩
    exact (addsPlain_preview (s := { s with activeColor := colorValues[index.toNat] }) _).trans
      (addsPlain_writeColor selected (by decide))
  · exact addsPlain_refl s

theorem addsPlain_clearCanvas (known : ∃ i : Fin numColors, colorValues.get i = s.activeColor)
    (xPos : Int) :
    AddsPlain s (clearCanvas xPos chars s) := by
  unfold clearCanvas
  split
  · apply (addsPlain_draw [canvasClear] _).trans (addsPlain_setup known)
    intro call member
    exact .inr (List.mem_singleton.mp member)
  · exact addsPlain_refl s

theorem Painted.add {result : PaintStep} (painted : Painted s) (adds : AddsPlain s result)
    (goes : result = .goesOn s') (shows : ShowsColor s') : Painted s' := by
  obtain ⟨calls, added, isPlain⟩ := adds s' goes
  refine ⟨shows, ?_, ?_⟩
  · rw [added]
    exact List.forall_mem_append.mpr ⟨painted.calls, fun call member =>
      (isPlain call member).ofPaint⟩
  · rw [added]
    exact painted.strokes.append isPlain

theorem paintStart_painted {userMouse : Bool} (goes : paintStart userMouse chars = .goesOn s) :
    Painted s := by
  have shows := paintStart_shows goes
  cases userMouse with
  | false => cases goes
  | true =>
      have red : ∃ i : Fin numColors, colorValues[i] = 0xFF0000 := ⟨⟨1, by decide⟩, rfl⟩
      obtain ⟨calls, added, isPlain⟩ := addsPlain_setup (s := ⟨0xFF0000, []⟩) red s goes
      rw [List.nil_append] at added
      refine ⟨shows, ?_, ?_⟩
      · rw [added]
        exact fun call member => (isPlain call member).ofPaint
      · rw [added, ← List.nil_append calls]
        exact StrokesMatch.append (fun before color after parts => by simp at parts) isPlain

/-- A stroke is made in the active colour, which the rectangle shows. -/
theorem Painted.stroke (painted : Painted s) :
    Painted (s.draw [.updateCursorBackground s.activeColor]) := by
  refine ⟨painted.shows.draw (by simp [PaintCall.preview, PaintCall.label]), ?_, ?_⟩
  · rw [PaintState.draw, List.forall_mem_append]
    refine ⟨painted.calls, fun call member => ?_⟩
    obtain ⟨i, color⟩ := painted.shows.known
    rw [List.mem_singleton.mp member, ← color]
    exact .stroke i
  · exact painted.strokes.stroke painted.shows.preview

theorem paintRound_painted {round : PaintRound} (painted : Painted s)
    (goes : PaintRounds s round s') :
    Painted s' := by
  have shows := paintRound_shows painted.shows goes
  unfold PaintRounds paintRound at goes
  split at goes
  · unfold handleMouse at goes
    split at goes
    · cases goes
      exact painted.stroke
    · split at goes
      · simp only [Option.bind_eq_bind, Option.bind_eq_some_iff, Option.pure_def,
          Option.some.injEq] at goes
        obtain ⟨dividend, _, clicked⟩ := goes
        have adds : AddsPlain s ((selectColor (dividend.tdiv 20) round.chars s).andThen
            (clearCanvas round.userMouse.xPos round.chars')) := by
          apply (addsPlain_selectColor _).andThen
          intro middle selected
          exact addsPlain_clearCanvas (selectColor_shows painted.shows selected).known _
        exact painted.add adds clicked shows
      · cases goes
        exact painted
  · cases goes

theorem paint_painted {userMouse : Bool} {rounds : List PaintRound}
    (start : paintStart userMouse chars = .goesOn s) (run : Run PaintRounds s rounds s') :
    Painted s' := by
  have preserved (s : PaintState) (round : PaintRound) (s' : PaintState) (painted : Painted s)
      (goes : PaintRounds s round s') : Painted s' := paintRound_painted painted goes
  exact invariant preserved run (paintStart_painted start)

end Calls

/-! What the screen shows of it. -/

/-- An access of a call of the program: above the canvas, black, or a colour of the palette beneath
the cursor. -/
def Access.OfPaint (fb : Framebuffer) : Access → Prop
  | store k v => fb.layout.row k < 100 ∨ v = 0
  | remember entry color => entry < 25 ∧ ∃ i : Fin numColors, color = (colorValues.get i).toNat
  | packet _ => True

/-- Where a byte of the canvas comes from: from before the run, from a clear that found its pixel
uncovered, or from a stroke in a colour of the palette that had the cursor over it; whichever was
last. -/
inductive CanvasShows (fb : Framebuffer) (desktop : Desktop) (log : List Access)
    (a b c : Nat) : UInt8 → Prop where
  | untouched
      (silent : lastWritten (Mouse.access fb) fb.paints desktop.toMouse log
        (fb.layout.offset a b + c) = none) :
      CanvasShows fb desktop log a b c (fb.withoutCursor desktop (fb.layout.offset a b + c))
  | cleared {m : Mouse}
      (last : Last (Mouse.access fb) fb.paints desktop.toMouse log (fb.layout.offset a b + c) m
        (.store (fb.layout.offset a b + c) 0))
      (uncovered : ¬ m.data.cursor a b) : CanvasShows fb desktop log a b c 0
  | stroke {m : Mouse} {entry : Nat} (i : Fin numColors)
      (last : Last (Mouse.access fb) fb.paints desktop.toMouse log (fb.layout.offset a b + c) m
        (.remember entry (colorValues.get i).toNat))
      (under : m.data.pixel entry a b) :
      CanvasShows fb desktop log a b c (solid (colorValues.get i).toNat a b c)

section Canvas

variable {fb : Framebuffer} {beyond : Nat → UInt8} {a b c : Nat} {log : List Access}
  {desktop : Desktop}

theorem canvasClear_black : ∀ st ∈ fb.sysDrawStores 0 100 screenWidth (screenHeight - 100) 0,
    st.2 = 0 := by
  have parts : red 0 = 0 ∧ green 0 = 0 ∧ blue 0 = 0 := by decide
  intro st member
  rw [Framebuffer.sysDrawStores, if_neg (by decide), Framebuffer.kdrawStores, parts.1, parts.2.1,
    parts.2.2] at member
  split at member
  · cases member
  · exact pixelStores_same member

theorem onToolbar_rows {call : PaintCall} (above : call.OnToolbar) (wide : fb.width = screenWidth)
    (tall : fb.height = screenHeight) : ∀ access ∈ call.accesses fb beyond, access.OfPaint fb := by
  intro access member
  cases call with
  | drawRectangle x y width height color =>
      obtain ⟨rows, narrow, plural⟩ := above
      simp only [PaintCall.accesses, List.mem_map] at member
      obtain ⟨st, stored, rfl⟩ := member
      rw [Framebuffer.sysDrawStores, if_neg (by omega)] at stored
      have bound := kdrawStores_rows narrow (by omega) stored
      exact .inl (by omega)
  | gwrite x y color text =>
      obtain ⟨rows, columns⟩ := above
      simp only [PaintCall.accesses, List.mem_map] at member
      obtain ⟨st, stored, rfl⟩ := member
      unfold screenHeight at tall
      have bound := sysGwriteStores_rows (by omega) (by omega) stored
      exact .inl (by omega)
  | updateCursorBackground color => exact above.elim

theorem accesses_ofPaint {call : PaintCall} (ofPaint : call.OfPaint) (wide : fb.width = screenWidth)
    (tall : fb.height = screenHeight) : ∀ access ∈ call.accesses fb beyond, access.OfPaint fb := by
  cases ofPaint with
  | toolbar above => exact onToolbar_rows above wide tall
  | clear =>
      intro access member
      simp only [canvasClear, PaintCall.accesses, List.mem_map] at member
      obtain ⟨st, stored, rfl⟩ := member
      exact .inr (canvasClear_black st stored)
  | stroke i =>
      intro access member
      simp only [PaintCall.accesses, List.mem_map, List.mem_range] at member
      obtain ⟨entry, bound, rfl⟩ := member
      exact ⟨bound, i, rfl⟩

theorem access_acts (s : Desktop) {access : Access} (valid : access.Valid)
    (onScreen : fb.OnScreen s.data) :
    fb.OnScreen (s.access fb access).data ∧ (s.access fb access).toMouse =
      s.toMouse.access fb access ∧
      ∀ n, fb.withoutCursor (s.access fb access) n =
        (fb.paints s.toMouse access n).getD (fb.withoutCursor s n) := by
  have harmless := storeMouseData_harmless fb
  cases access with
  | store k v => exact ⟨onScreen, rfl, fun _ => put_beneath onScreen k v⟩
  | remember entry color => exact ⟨onScreen, rfl, fun _ => remember_beneath onScreen valid color⟩
  | packet byte =>
      exact ⟨harmless.kept s byte onScreen, storeMouseData_mouse fb s byte,
        fun n => congrFun (harmless.same s byte onScreen) n⟩

theorem Access.OfPaint.valid {access : Access} (ofPaint : access.OfPaint fb) : access.Valid := by
  cases access with
  | store k v => trivial
  | remember entry color => exact ofPaint.1
  | packet byte => trivial

/-- The last access of the program that writes a byte of the canvas is a clear or a stroke. -/
theorem canvasShows_last {m : Mouse} {access : Access} {v : UInt8} (ofPaint : access.OfPaint fb)
    (column : a < fb.width) (below : 100 ≤ b) (channel : c < 3)
    (last : Last (Mouse.access fb) fb.paints desktop.toMouse log (fb.layout.offset a b +
      c) m access)
    (wrote : fb.paints m access (fb.layout.offset a b + c) = some v) :
    CanvasShows fb desktop log a b c v := by
  have small : c < fb.layout.step := lt_of_lt_of_le channel (three_le_step fb)
  have row : fb.layout.row (fb.layout.offset a b + c) = b :=
    Layout.row_offset (r := fb.layout) column small
  cases access with
  | store k v' =>
      rw [Framebuffer.paints] at wrote
      split at wrote
      · rename_i hit
        obtain ⟨rfl, away⟩ := hit
        cases wrote
        rcases ofPaint with above | rfl
        · omega
        · exact .cleared last ((Layout.inside_offset (r := fb.layout) column channel).not.mp away)
      · cases wrote
  | remember entry color =>
      obtain ⟨_, i, rfl⟩ := ofPaint
      rw [Framebuffer.paints] at wrote
      split at wrote
      · rename_i hit
        cases wrote
        rw [row, Layout.column_offset (r := fb.layout) column small,
          Layout.channel_offset (r := fb.layout) column small]
        exact .stroke i last ((Layout.inside_offset (r := fb.layout) column channel).mp hit)
      · cases wrote
  | packet byte => cases wrote

theorem log_ofPaint {calls : List PaintCall} (ofPaint : ∀ call ∈ calls, call.OfPaint)
    (wide : fb.width = screenWidth) (tall : fb.height = screenHeight)
    (performed : log.filter (fun access => !access.isPacket) <+:
      calls.flatMap (PaintCall.accesses fb beyond)) : ∀ access ∈ log, access.OfPaint fb := by
  intro access member
  cases kind : access.isPacket with
  | true =>
      cases access with
      | packet byte => trivial
      | store k v => cases kind
      | remember entry color => cases kind
  | false =>
      have kept : access ∈ log.filter (fun access => !access.isPacket) :=
        List.mem_filter.mpr ⟨member, by rw [kind]; rfl⟩
      obtain ⟨call, made, there⟩ := List.mem_flatMap.mp (performed.subset kept)
      exact accesses_ofPaint (ofPaint call made) wide tall _ there

theorem paint_values (ofPaint : ∀ access ∈ log, access.OfPaint fb)
    (onScreen : fb.OnScreen desktop.data) :
    let after := log.foldl (Desktop.access fb) desktop
    fb.OnScreen after.data ∧ after.toMouse = log.foldl (Mouse.access fb) desktop.toMouse ∧
      ∀ n, fb.withoutCursor after n =
        (lastWritten (Mouse.access fb) fb.paints desktop.toMouse log n).getD
          (fb.withoutCursor desktop n) :=
  foldl_value Desktop.toMouse fb.withoutCursor (fun s => fb.OnScreen s.data)
    (fun s access member => access_acts s (ofPaint access member).valid) desktop onScreen

theorem screen_lastWritten (ofPaint : ∀ access ∈ log, access.OfPaint fb)
    (onScreen : fb.OnScreen desktop.data) (inside : a < fb.width) (channel : c < 3)
    (visible : ¬(log.foldl (Desktop.access fb) desktop).data.cursor a b) :
    (log.foldl (Desktop.access fb) desktop).screen (fb.layout.offset a b + c) =
      (lastWritten (Mouse.access fb) fb.paints desktop.toMouse log (fb.layout.offset a b + c)).getD
        (fb.withoutCursor desktop (fb.layout.offset a b + c)) := by
  obtain ⟨onScreen', _, values⟩ := paint_values ofPaint onScreen
  have away := (Layout.inside_offset (r := fb.layout) inside channel).not.mpr visible
  rw [screen_outside onScreen' away, values]

/-- Whatever the user does and wherever the mouse interrupts the stores, at any moment the canvas
shows what was there before, black where it was cleared, and the strokes, each in the colour that
was shown as the active one. -/
theorem paint_canvas {userMouse : Bool} {chars : ColorChars} {rounds : List PaintRound}
    {s s' : PaintState} (wide : fb.width = screenWidth) (tall : fb.height = screenHeight)
    (start : paintStart userMouse chars = .goesOn s) (run : Run PaintRounds s rounds s')
    (performed : log.filter (fun access => !access.isPacket) <+:
      s'.calls.flatMap (PaintCall.accesses fb beyond))
    (onScreen : fb.OnScreen desktop.data) (column : a < screenWidth) (below : 100 ≤ b)
    (channel : c < 3) (visible : ¬ (log.foldl (Desktop.access fb) desktop).data.cursor a b) :
    StrokesMatch s'.calls ∧
      CanvasShows fb desktop log a b c
        ((log.foldl (Desktop.access fb) desktop).screen (fb.layout.offset a b + c)) := by
  have painted := paint_painted start run
  have inside : a < fb.width := wide ▸ column
  have ofPaint := log_ofPaint painted.calls wide tall performed
  refine ⟨painted.strokes, ?_⟩
  rw [screen_lastWritten ofPaint onScreen inside channel visible]
  cases written : lastWritten (Mouse.access fb) fb.paints desktop.toMouse log
    (fb.layout.offset a b + c) with
  | none => exact .untouched written
  | some v =>
      obtain ⟨m, access, last, wrote⟩ := exists_last written
      exact canvasShows_last (ofPaint access last.mem) inside below channel last wrote

theorem accesses_not_packet (calls : List PaintCall) :
    ∀ access ∈ calls.flatMap (PaintCall.accesses fb beyond), access.isPacket = false := by
  intro access member
  obtain ⟨call, _, member⟩ := List.mem_flatMap.mp member
  cases call <;> simp only [PaintCall.accesses, List.mem_map] at member <;> obtain ⟨_, _, rfl⟩ :=
    member <;> rfl

theorem access_mouse {access : Access} (quiet : access.isPacket = false) (m : Mouse) :
    m.access fb access = m := by
  cases access with
  | packet byte => cases quiet
  | store n v => rfl
  | remember i color => rfl

theorem foldl_quiet (quiet : ∀ access ∈ log, access.isPacket = false) (m : Mouse) :
    log.foldl (Mouse.access fb) m = m := by
  induction log generalizing m with
  | nil => rfl
  | cons access rest ih =>
      rw [List.forall_mem_cons] at quiet
      rw [List.foldl_cons, access_mouse quiet.1, ih quiet.2]

theorem stroke_corner {m : Mouse} {color : Nat} {before after : List Access} {packets : List UInt8}
    (reached : before.foldl (Mouse.access fb) desktop.toMouse = m)
    (corner : m.data.xPos.toNat = a ∧ m.data.yPos.toNat = b) (inside : a < fb.width)
    (channel : c < 3) (parts : after = (List.range 24).map (fun i => .remember (i + 1) color) ++
      packets.map .packet) :
    lastWritten (Mouse.access fb) fb.paints desktop.toMouse (before ++ .remember 0 color :: after)
      (fb.layout.offset a b + c) = some (solid color a b c) := by
  have small : c < fb.layout.step := lt_of_lt_of_le channel (three_le_step fb)
  have here (entry : Nat) : fb.layout.Inside (m.data.pixel entry) (fb.layout.offset a b + c) ↔
      entry % 5 = 0 ∧ entry / 5 = 0 := by
    rw [Layout.inside_offset (r := fb.layout) inside channel, MouseData.pixel, corner.1, corner.2]
    omega
  have others : lastWritten (Mouse.access fb) fb.paints m after
      (fb.layout.offset a b + c) = none := by
    rw [parts, lastWritten_append, Option.or_eq_none_iff]
    constructor
    · apply lastWritten_of_silent
      intro m' access member
      obtain ⟨byte, _, rfl⟩ := List.mem_map.mp member
      rfl
    · apply lastWritten_of_still
      intro access member
      obtain ⟨i, _, rfl⟩ := List.mem_map.mp member
      refine ⟨rfl, if_neg ?_⟩
      rw [here]
      omega
  have last : Last (Mouse.access fb) fb.paints desktop.toMouse
      (before ++ .remember 0 color :: after)
      (fb.layout.offset a b + c) m (.remember 0 color) := ⟨before, after, rfl, reached.symm, others⟩
  apply last.value
  rw [Framebuffer.paints, if_pos ((here 0).mpr ⟨rfl, rfl⟩),
    Layout.row_offset (r := fb.layout) inside small,
      Layout.column_offset (r := fb.layout) inside small,
    Layout.channel_offset (r := fb.layout) inside small]

end Canvas

def paintScreen : Framebuffer where
  width := screenWidth
  height := screenHeight
  pitch := 3072
  bpp := 24
  depth := squareScreen.depth
  row_fits := by decide
  size_lt := by decide
  width_lt := by decide
  height_lt := by decide

def paintDesktop : Desktop := paintScreen.initializeCursor (fun _ => 0)

def blankChars : Vector UInt8 20 := Vector.replicate 20 0

def pressed : List Access := [.packet 0x29, .packet 0, .packet 5]

def canvasClick : PaintRound :=
  ⟨0, ⟨100, 150, true, false, false⟩, some blankChars, some blankChars⟩

def released : List UInt8 := [0x08, 50, 0]

theorem paintStart_red :
    ∃ s, paintStart true (some blankChars) = .goesOn s ∧ s.activeColor = 0xFF0000 := by
  have red : ∃ i : Fin numColors, colorValues[i] = (0xFF0000 : UInt32) := ⟨⟨1, by decide⟩, rfl⟩
  obtain ⟨s, start⟩ : ∃ s, paintStart true (some blankChars) = .goesOn s := by
    rw [paintStart, if_pos rfl, setupColorSelectionPane, writeColor_known red]
    exact ⟨_, rfl⟩
  have kept := setupColorSelectionPane_activeColor ⟨0xFF0000, []⟩ (some blankChars)
  rw [show setupColorSelectionPane (some blankChars) ⟨0xFF0000, []⟩ = .goesOn s from start] at kept
  exact ⟨s, start, Option.some.inj kept⟩

theorem paint_canvas_click : ∃ (s' : PaintState) (log : List Access),
    .updateCursorBackground 0xFF0000 ∈ s'.calls ∧ .packet 0x08 ∈ log ∧ StrokesMatch s'.calls ∧
      let screen := (log.foldl (Desktop.access paintScreen) paintDesktop).screen
      CanvasShows paintScreen paintDesktop log 100 150 2
        (screen (paintScreen.layout.offset 100 150 + 2)) ∧
        screen (paintScreen.layout.offset 100 150 + 2) = 0xFF := by
  obtain ⟨s, start, active⟩ := paintStart_red
  have run : Run PaintRounds s [canvasClick] (s.draw [.updateCursorBackground s.activeColor]) :=
    .cons rfl (.nil _)
  rw [active] at run
  have onScreen : paintScreen.OnScreen paintDesktop.data :=
    ⟨by decide, by decide, by decide, by decide⟩
  have inside : 100 < paintScreen.width := by decide
  have channel : 2 < 3 := by decide
  let drawn := s.calls.flatMap (PaintCall.accesses paintScreen fun _ => 0)
  let stroke : List Access := (List.range 24).map fun i => .remember (i + 1) 0xFF0000
  let log := (drawn ++ pressed) ++ .remember 0 0xFF0000 :: (stroke ++ released.map .packet)
  have performed : log.filter (fun access => !access.isPacket) <+:
      (s.draw [.updateCursorBackground 0xFF0000]).calls.flatMap
        (PaintCall.accesses paintScreen fun _ => 0) := by
    have quiet : drawn.filter (fun access => !access.isPacket) = drawn :=
      List.filter_eq_self.mpr fun access member => by rw [accesses_not_packet _ access member]; rfl
    have later : (Access.remember 0 0xFF0000 :: (stroke ++ released.map .packet)).filter
        (fun access => !access.isPacket) = .remember 0 0xFF0000 :: stroke := rfl
    have none : pressed.filter (fun access => !access.isPacket) = [] := rfl
    rw [PaintState.draw, List.flatMap_append, List.filter_append, List.filter_append, quiet,
      none, later, List.append_nil]
    exact List.prefix_rfl
  have reached : (drawn ++ pressed).foldl (Mouse.access paintScreen) paintDesktop.toMouse =
      ⟨⟨100, 150, true, false, false⟩, ⟨1, 0, 0, 0, 1, 0, 5⟩, 0⟩ := by
    rw [List.foldl_append, foldl_quiet (accesses_not_packet _)]
    rfl
  have moved : log.foldl (Mouse.access paintScreen) paintDesktop.toMouse =
      ⟨⟨110, 150, false, false, false⟩, ⟨0, 0, 0, 0, 0, 50, 0⟩, 0⟩ := by
    rw [List.foldl_append, reached]
    rfl
  have ofPaint := log_ofPaint (paint_painted start run).calls rfl rfl performed
  have visible : ¬(log.foldl (Desktop.access paintScreen) paintDesktop).data.cursor 100 150 := by
    rw [(paint_values ofPaint onScreen).2.1, moved]
    rintro ⟨⟨left, _⟩, _⟩
    exact absurd left (by decide)
  have corner : lastWritten (Mouse.access paintScreen) paintScreen.paints paintDesktop.toMouse log
      (paintScreen.layout.offset 100 150 + 2) = some (solid 0xFF0000 100 150 2) :=
    stroke_corner reached ⟨rfl, rfl⟩ inside channel rfl
  obtain ⟨strokes, shows⟩ :=
    paint_canvas rfl rfl start run performed onScreen inside (by decide) channel visible
  refine ⟨_, log, List.mem_append_right _ List.mem_cons_self, ?_, strokes, shows, ?_⟩
  · simp [log, released]
  · rw [screen_lastWritten ofPaint onScreen inside channel visible, corner]
    rfl

end PaintKernel
