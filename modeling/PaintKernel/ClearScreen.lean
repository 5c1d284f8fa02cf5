import Mathlib
import PaintKernel.DrawUnderCursor
import PaintKernel.Syscalls
import PaintKernel.Library.Preemption

set_option autoImplicit false

/-! `clear_screen` while the mouse interrupts it between any two of its stores. -/

namespace PaintKernel

open ByteMemory Raster Preemption

def pixelStores (rows columns : List Nat) (r g b : UInt8) : List (Nat × UInt8) :=
  rows.flatMap fun row => columns.flatMap fun column =>
    [(column + row, b), (column + row + 1, g), (column + row + 2, r)]

/-- The pixel of the cursor that entry `i` of `saved_pixels` is for. -/
def MouseData.pixel (data : MouseData) (i : Nat) : Raster.Region := fun a b =>
  a = data.xPos.toNat + i % 5 ∧ b = data.yPos.toNat + i / 5

namespace Desktop

def put (s : Desktop) (st : Nat × UInt8) : Desktop := { s with screen := store s.screen st.1 st.2 }

def forget (s : Desktop) (i : Nat) : Desktop :=
  { s with savedPixels := Function.update s.savedPixels i 0 }

theorem forget_savedPixels (s : Desktop) (i : Nat) :
    (s.forget i).savedPixels = Function.update s.savedPixels i 0 := rfl

end Desktop

namespace Framebuffer

variable (fb : Framebuffer)

def clearStores : List (Nat × UInt8) :=
  pixelStores (loopValues 0 (fb.height * fb.pitch) fb.pitch)
    (loopValues 0 (fb.width * fb.pixelwidth) fb.pixelwidth) 0 0 0

def kdrawStores (x y width height color : Nat) : List (Nat × UInt8) :=
  if x ≥ fb.width ∨ y ≥ fb.height then []
  else
    let width := if (x + width) % 2 ^ 32 ≥ fb.width then fb.width - x else width
    let height := if (y + height) % 2 ^ 32 ≥ fb.height then fb.height - y else height
    let rows := loopValues (y * fb.pitch % 2 ^ 32)
      ((y + height) % 2 ^ 32 * fb.pitch % 2 ^ 32) fb.pitch
    let columns := loopValues (x * fb.pixelwidth % 2 ^ 32)
      ((x + width) % 2 ^ 32 * fb.pixelwidth % 2 ^ 32) fb.pixelwidth
    pixelStores rows columns (red color) (green color) (blue color)

/-- `clear_screen` with the bytes `arrivals k` from the mouse right before its access number `k`:
the stores of its three loops, and between the last two the reads of the position, which the
compiler may put in either order. -/
def clearScreenUnder (arrivals : Nat → List UInt8) (xFirst : Bool) (s : Desktop) : Desktop :=
  let n := fb.clearStores.length
  let s := interrupted fb.storeMouseData arrivals 0 (fb.clearStores.map fun st s => s.put st) s
  let s := interrupted fb.storeMouseData arrivals n ((List.range 25).map fun i s => s.forget i) s
  let first := (arrivals (n + 25)).foldl fb.storeMouseData s
  let second := (arrivals (n + 26)).foldl fb.storeMouseData first
  let x := if xFirst then first.data.xPos else second.data.xPos
  let y := if xFirst then second.data.yPos else first.data.yPos
  interrupted fb.storeMouseData arrivals (n + 27)
    ((fb.kdrawStores (toUInt32 x) (toUInt32 y) 5 5 0xFFFFFF).map fun st s => s.put st) second

structure Cleared (s : Desktop) : Prop where
  black : ∀ a < fb.width, ∀ b < fb.height, ¬ s.data.cursor a b →
    ∀ c < 3, s.screen (fb.layout.offset a b + c) = 0
  saved : ∀ i < 25, s.savedPixels i = 0

def dataAt (arrivals : Nat → List UInt8) (m : Mouse) (k : Nat) : MouseData :=
  (handled fb.receive arrivals m (k + 1)).data

def redrawStores (arrivals : Nat → List UInt8) (xFirst : Bool) (m : Mouse) : List (Nat × UInt8) :=
  let first := fb.dataAt arrivals m (fb.clearStores.length + 25)
  let second := fb.dataAt arrivals m (fb.clearStores.length + 26)
  let x := if xFirst then first.xPos else second.xPos
  let y := if xFirst then second.yPos else first.yPos
  fb.kdrawStores (toUInt32 x) (toUInt32 y) 5 5 0xFFFFFF

/-- The mouse moves in a way that does no harm: the cursor is wherever the last loop stores at that
moment, and each byte that is not black beneath the cursor at the start is cleared while the cursor
is elsewhere, or forgotten while it is on the byte. -/
structure Undisturbed (arrivals : Nat → List UInt8) (xFirst : Bool) (s : Desktop) : Prop where
  redrawn : ∀ j st, (fb.redrawStores arrivals xFirst s.toMouse)[j]? = some st →
    fb.layout.Inside (fb.dataAt arrivals s.toMouse (fb.clearStores.length + 27 + j)).cursor st.1
  cleared : ∀ a < fb.width, ∀ b < fb.height, ∀ c < 3,
    fb.withoutCursor s (fb.layout.offset a b + c) = 0 ∨
    (∃ k, fb.clearStores[k]? = some (fb.layout.offset a b + c, 0) ∧
      ¬ (fb.dataAt arrivals s.toMouse k).cursor a b) ∨
    ∃ i < 25, (fb.dataAt arrivals s.toMouse (fb.clearStores.length + i)).pixel i a b

def Uncovered (st : Nat × UInt8) (m : Mouse) (n : Nat) : Prop :=
  n = st.1 ∧ ¬ fb.layout.Inside m.data.cursor n

def Forgotten (i : Nat) (m : Mouse) (n : Nat) : Prop := fb.layout.Inside (m.data.pixel i) n

def Whitened (arrivals : Nat → List UInt8) (xFirst : Bool) (m : Mouse) : Nat → Prop :=
  Reached (handled fb.receive arrivals m) fb.Uncovered (fb.clearStores.length + 27)
    (fb.redrawStores arrivals xFirst m)

def Blackened (arrivals : Nat → List UInt8) (m : Mouse) (n : Nat) : Prop :=
  Reached (handled fb.receive arrivals m) fb.Uncovered 0 fb.clearStores n ∨
    Reached (handled fb.receive arrivals m) fb.Forgotten fb.clearStores.length (List.range 25) n

end Framebuffer

section Stores

variable {fb : Framebuffer} {x y width height color : Nat}

theorem foldl_pixelStores (rows columns : List Nat) (r g b : UInt8) (screen : Mem) :
    (pixelStores rows columns r g b).foldl (fun m st => store m st.1 st.2) screen =
      rows.foldl (fun screen row => columns.foldl (fun screen column =>
        putPixel screen (column + row) r g b) screen) screen := by
  rw [pixelStores, List.foldl_flatMap]
  simp only [List.foldl_flatMap]
  rfl

theorem clearStores_clear (screen : Mem) :
    fb.clearStores.foldl (fun m st => store m st.1 st.2) screen = fb.clearScreen screen :=
  foldl_pixelStores _ _ 0 0 0 screen

theorem kdrawStores_draw (screen : Mem) :
    (fb.kdrawStores x y width height color).foldl (fun m st => store m st.1 st.2) screen =
      fb.kdrawRectangle x y width height color screen := by
  unfold Framebuffer.kdrawStores Framebuffer.kdrawRectangle
  split
  · rfl
  · exact foldl_pixelStores _ _ _ _ _ screen

theorem pixelStores_same {rows columns : List Nat} {v : UInt8} {st : Nat × UInt8}
    (member : st ∈ pixelStores rows columns v v v) : st.2 = v := by
  simp only [pixelStores, List.mem_flatMap, List.mem_cons, List.not_mem_nil, or_false] at member
  rcases member with ⟨_, _, _, _, rfl | rfl | rfl⟩ <;> rfl

theorem clearStores_black : ∀ st ∈ fb.clearStores, st.2 = 0 :=
  fun _ member => pixelStores_same member

theorem kdrawStores_white {st : Nat × UInt8}
    (member : st ∈ fb.kdrawStores x y width height 0xFFFFFF) :
    st.2 = 0xFF := by
  have parts : red 0xFFFFFF = 0xFF ∧ green 0xFFFFFF = 0xFF ∧ blue 0xFFFFFF = 0xFF := by decide
  unfold Framebuffer.kdrawStores at member
  rw [parts.1, parts.2.1, parts.2.2] at member
  split at member
  · cases member
  · exact pixelStores_same member

theorem solid_black (a b c : Nat) : solid 0 a b c = 0 := by
  have parts : red 0 = 0 ∧ green 0 = 0 ∧ blue 0 = 0 := by decide
  rw [solid, parts.1, parts.2.1, parts.2.2]
  unfold channels
  split <;> rfl

theorem clearScreen_paint (visible : 0 < fb.pitch) (screen : Mem) :
    fb.clearScreen screen =
      fb.layout.paint (Rectangle 0 0 fb.width fb.height) (solid 0) screen := by
  rw [← rows_paint (by omega) visible, Nat.zero_mul, Nat.zero_mul, Nat.zero_add, Nat.zero_add]
  rfl

theorem mem_clearStores {a b c : Nat} (column : a < fb.width) (row : b < fb.height)
    (channel : c < 3) :
    (fb.layout.offset a b + c, 0) ∈ fb.clearStores := by
  have painted : fb.clearScreen (fun _ => 1) (fb.layout.offset a b + c) = solid 0 a b c := by
    rw [clearScreen_paint (pitch_pos column)]
    exact Layout.paint_offset (r := fb.layout) column channel ⟨by omega, by omega⟩
  rw [← clearStores_clear, foldl_store clearStores_black, solid_black] at painted
  by_contra absent
  rw [if_neg absent] at painted
  exact absurd painted (by decide)

theorem kdrawStores_inside (narrow : width < 2 ^ 16) (short : height < 2 ^ 16) {st : Nat × UInt8}
    (member : st ∈ fb.kdrawStores x y width height 0xFFFFFF) :
    fb.layout.Inside (fun a b => Rectangle x y width height a b ∧ b < fb.height) st.1 := by
  have corner : x < fb.width ∧ y < fb.height := by
    by_contra off
    rw [Framebuffer.kdrawStores, if_pos (by omega)] at member
    cases member
  have widths := fb.width_lt
  have heights := fb.height_lt
  have wide : x + width < 2 ^ 32 := by omega
  have tall : y + height < 2 ^ 32 := by omega
  have white := kdrawStores_white member
  have drawn : fb.kdrawRectangle x y width height 0xFFFFFF (fun _ => 0) st.1 = 0xFF := by
    rw [← kdrawStores_draw, foldl_store fun st member => kdrawStores_white member, ← white,
      if_pos member]
  by_contra outside
  rw [kdrawRectangle_paint wide tall, Layout.paint_outside outside] at drawn
  exact absurd drawn (by decide)

end Stores

section Steps

variable {fb : Framebuffer} {s : Desktop}

theorem OnScreen.room (onScreen : fb.OnScreen s.data) : 6 ≤ fb.width ∧ 6 ≤ fb.height := by
  have left := onScreen.x_nonneg
  have right := onScreen.x_le
  have top := onScreen.y_nonneg
  have bottom := onScreen.y_le
  omega

theorem storeMouseData_draws (moves : s.mouseCounter = 2) (onScreen : fb.OnScreen s.data)
    (packet : UInt8) :
    CursorOver fb (fb.withoutCursor s) (fb.storeMouseData s packet) := by
  rcases OnScreen.room onScreen with ⟨wide, tall⟩
  rcases s with ⟨⟨data, mousebytes, counter⟩, screen, saved⟩
  subst moves
  exact updateCursor_draws wide tall ⟨⟨data, { mousebytes with yMove := packet.toNat }, 0⟩,
    screen, saved⟩

theorem storeMouseData_harmless (fb : Framebuffer) :
    Preemption.Harmless fb.storeMouseData fb.receive Desktop.toMouse (fun s => fb.OnScreen s.data)
      fb.withoutCursor := by
  have both : ∀ s packet, fb.OnScreen s.data → fb.OnScreen (fb.storeMouseData s packet).data ∧
      fb.withoutCursor (fb.storeMouseData s packet) = fb.withoutCursor s := by
    intro s packet onScreen
    by_cases moves : s.mouseCounter = 2
    · have drawn := storeMouseData_draws moves onScreen packet
      exact ⟨drawn.onScreen, drawn.restored⟩
    · rcases storeMouseData_waits fb moves packet with ⟨stored, column, row⟩
      rw [stored]
      unfold Framebuffer.withoutCursor
      rw [column, row]
      refine ⟨⟨?_, ?_, ?_, ?_⟩, rfl⟩ <;> simp only [column, row]
      · exact onScreen.x_nonneg
      · exact onScreen.x_le
      · exact onScreen.y_nonneg
      · exact onScreen.y_le
  exact ⟨storeMouseData_mouse fb, fun s packet onScreen => (both s packet onScreen).1,
    fun s packet onScreen => (both s packet onScreen).2⟩

theorem put_marks (st : Nat × UInt8) :
    Marks Desktop.toMouse (fun s => fb.OnScreen s.data) fb.withoutCursor st.2
      (fb.Uncovered st) (fun s => s.put st) where
  viewed _ := rfl
  kept _ onScreen := onScreen
  marked s n onScreen hit := by
    rw [withoutCursor_paint (s := s.put st) onScreen, hit.1]
    calc
      _ = store s.screen st.1 st.2 st.1 := Layout.paint_outside (hit.1 ▸ hit.2)
      _ = st.2 := store_here _ _ _
  other s n onScreen miss := by
    rw [withoutCursor_paint (s := s.put st) onScreen, withoutCursor_paint onScreen]
    by_cases under : fb.layout.Inside s.data.cursor n
    · rw [Layout.paint_inside under]
      exact Layout.paint_inside under
    · have away : n ≠ st.1 := fun here => miss ⟨here, under⟩
      rw [Layout.paint_outside under]
      calc
        _ = store s.screen st.1 st.2 n := Layout.paint_outside under
        _ = s.screen n := store_elsewhere _ _ _ _ away

theorem clearStores_marks : ∀ st ∈ fb.clearStores,
    Marks Desktop.toMouse (fun s => fb.OnScreen s.data) fb.withoutCursor 0 (fb.Uncovered st)
      (fun s => s.put st) :=
  fun st member => clearStores_black st member ▸ put_marks st

theorem redrawStores_marks (fb : Framebuffer) (arrivals : Nat → List UInt8) (xFirst : Bool)
    (m : Mouse) :
    ∀ st ∈ fb.redrawStores arrivals xFirst m,
      Marks Desktop.toMouse (fun s => fb.OnScreen s.data) fb.withoutCursor 0xFF (fb.Uncovered st)
        (fun s => s.put st) :=
  fun st member => kdrawStores_white member ▸ put_marks st

theorem forget_marks {i : Nat} (entry : i < 25) :
    Marks Desktop.toMouse (fun s => fb.OnScreen s.data) fb.withoutCursor 0
      (fb.Forgotten i) (fun s => s.forget i) where
  viewed _ := rfl
  kept _ onScreen := onScreen
  marked s n onScreen hit := by
    rcases hit with ⟨column, channel, place, line⟩
    have under : fb.layout.Inside s.data.cursor n :=
      ⟨column, channel, by rw [place]; omega, by rw [line]; omega⟩
    rw [withoutCursor_paint (s := s.forget i) onScreen]
    calc
      _ = savedPicture s.data.xPos.toNat s.data.yPos.toNat (Function.update s.savedPixels i 0)
          (fb.layout.column n) (fb.layout.row n) (fb.layout.channel n) := Layout.paint_inside under
      _ = solid (Function.update s.savedPixels i 0 i) _ _ (fb.layout.channel n) := by
        rw [savedPicture, place, line, Nat.add_sub_cancel_left, Nat.add_sub_cancel_left,
          Nat.mod_add_div']
      _ = 0 := by rw [Function.update_self, solid_black]
  other s n onScreen miss := by
    rw [withoutCursor_paint (s := s.forget i) onScreen, withoutCursor_paint onScreen]
    by_cases under : fb.layout.Inside s.data.cursor n
    · have index : fb.layout.column n - s.data.xPos.toNat +
          (fb.layout.row n - s.data.yPos.toNat) * 5 ≠ i := by
        rintro rfl
        rcases under.2.2 with ⟨columns, rows⟩
        exact miss ⟨under.1, under.2.1, by omega, by omega⟩
      rw [Layout.paint_inside under]
      calc
        _ = savedPicture s.data.xPos.toNat s.data.yPos.toNat (Function.update s.savedPixels i 0)
            (fb.layout.column n) (fb.layout.row n) (fb.layout.channel n) :=
              Layout.paint_inside under
        _ = _ := by rw [savedPicture, savedPicture, Function.update_of_ne index]
    · rw [Layout.paint_outside under]
      exact Layout.paint_outside under

def Framebuffer.Coloured (fb : Framebuffer) (n : Nat) (s : Desktop) : Prop :=
  fb.OnScreen s.data ∧ ∀ i < n, i < 25 → s.savedPixels i < 2 ^ 24

theorem storeMouseData_coloured {n : Nat} (coloured : fb.Coloured n s) (packet : UInt8) :
    fb.Coloured n (fb.storeMouseData s packet) := by
  refine ⟨(storeMouseData_harmless fb).kept s packet coloured.1, ?_⟩
  by_cases moves : s.mouseCounter = 2
  · have drawn := storeMouseData_draws moves coloured.1 packet
    intro i _ entry
    have colour := drawn.saved (i % 5) (by omega) (i / 5) (by omega)
    rw [Nat.mod_add_div'] at colour
    exact lt_of_eq_of_lt colour (packColor_lt _ _ _)
  · rw [(storeMouseData_waits fb moves packet).1]
    exact coloured.2

theorem forget_coloured {i : Nat} (coloured : fb.Coloured i s) :
    fb.Coloured (i + 1) (s.forget i) := by
  refine ⟨coloured.1, fun j bound entry => ?_⟩
  by_cases here : j = i
  · rw [here, Desktop.forget_savedPixels, Function.update_self]
    decide
  · rw [Desktop.forget_savedPixels, Function.update_of_ne here]
    exact coloured.2 j (by omega) entry

theorem solid_eq_zero {color a b : Nat} (small : color < 2 ^ 24)
    (dark : ∀ c < 3, solid color a b c = 0) :
    color = 0 := by
  have digit : ∀ n, UInt8.ofNat n = 0 → n % 256 = 0 := by
    intro n zero
    have value := congrArg UInt8.toNat zero
    rwa [UInt8.toNat_ofNat'] at value
  have isBlue := digit _ (dark 0 (by decide))
  have isGreen := digit _ (dark 1 (by decide))
  have isRed := digit _ (dark 2 (by decide))
  rw [← Nat.shiftRight_zero (n := color &&& 0x0000FF), show 0x0000FF = 0xFF <<< 0 by decide,
    masked_byte] at isBlue
  rw [show 0x00FF00 = 0xFF <<< 8 by decide, masked_byte] at isGreen
  rw [show 0xFF0000 = 0xFF <<< 16 by decide, masked_byte] at isRed
  omega

theorem cleared_iff (coloured : fb.Coloured 25 s) :
    fb.Cleared s ↔ ∀ a < fb.width, ∀ b < fb.height, ∀ c < 3,
      fb.withoutCursor s (fb.layout.offset a b + c) = 0 := by
  have onScreen := coloured.1
  rw [withoutCursor_paint onScreen]
  constructor
  · intro cleared a column b row c channel
    by_cases under : s.data.cursor a b
    · rw [Layout.paint_offset (r := fb.layout) column channel under, savedPicture]
      rcases under with ⟨columns, rows⟩
      rw [cleared.saved _ (by omega), solid_black]
    · rw [Layout.paint_outside
        ((Layout.inside_offset (r := fb.layout) column channel).not.mpr under)]
      exact cleared.black a column b row under c channel
  · intro dark
    constructor
    · intro a column b row beside c channel
      have beneath := dark a column b row c channel
      rwa [Layout.paint_outside
        ((Layout.inside_offset (r := fb.layout) column channel).not.mpr beside)]
        at beneath
    · intro i entry
      have left := onScreen.x_nonneg
      have right := onScreen.x_le
      have top := onScreen.y_nonneg
      have bottom := onScreen.y_le
      have column : s.data.xPos.toNat + i % 5 < fb.width := by omega
      have row : s.data.yPos.toNat + i / 5 < fb.height := by omega
      refine solid_eq_zero (a := s.data.xPos.toNat + i % 5) (b := s.data.yPos.toNat + i / 5)
        (coloured.2 i entry entry) fun c channel => ?_
      have beneath := dark _ column _ row c channel
      rwa [Layout.paint_offset (r := fb.layout) column channel ⟨by omega, by omega⟩, savedPicture,
        Nat.add_sub_cancel_left, Nat.add_sub_cancel_left, Nat.mod_add_div'] at beneath

end Steps

section Run

variable {fb : Framebuffer} {s : Desktop} {arrivals : Nat → List UInt8} {xFirst : Bool}

/-- What the three loops leave beneath the cursor. -/
theorem clearScreenUnder_beneath (onScreen : fb.OnScreen s.data) :
    fb.OnScreen (fb.clearScreenUnder arrivals xFirst s).data ∧ ∀ n,
      (fb.Whitened arrivals xFirst s.toMouse n →
        fb.withoutCursor (fb.clearScreenUnder arrivals xFirst s) n = 0xFF) ∧
      (¬ fb.Whitened arrivals xFirst s.toMouse n → fb.Blackened arrivals s.toMouse n →
        fb.withoutCursor (fb.clearScreenUnder arrivals xFirst s) n = 0) ∧
      (¬ fb.Whitened arrivals xFirst s.toMouse n → ¬ fb.Blackened arrivals s.toMouse n →
        fb.withoutCursor (fb.clearScreenUnder arrivals xFirst s) n = fb.withoutCursor s n) := by
  have harmless := storeMouseData_harmless fb
  simp only [Framebuffer.clearScreenUnder]
  have clearing := interrupted_marks harmless arrivals s.toMouse clearStores_marks onScreen
    (k := 0) rfl
  rw [Nat.zero_add] at clearing
  generalize interrupted fb.storeMouseData arrivals 0 (fb.clearStores.map fun st s =>
    s.put st) s = cleared
    at clearing ⊢
  rcases clearing with ⟨kept, seen, clearing⟩
  have forgetting := interrupted_marks harmless arrivals s.toMouse
    (fun i member => forget_marks (List.mem_range.mp member)) kept seen
  rw [List.length_range] at forgetting
  generalize interrupted fb.storeMouseData arrivals fb.clearStores.length
    ((List.range 25).map fun i s => s.forget i) cleared = forgotten at forgetting ⊢
  rcases forgetting with ⟨kept', seen', forgetting⟩
  rcases harmless.batch (arrivals (fb.clearStores.length + 25)) forgotten kept' with
    ⟨on₁, viewed₁, same₁⟩
  rw [seen'] at viewed₁
  generalize (arrivals (fb.clearStores.length + 25)).foldl fb.storeMouseData forgotten = first
    at on₁ viewed₁ same₁ ⊢
  rcases harmless.batch (arrivals (fb.clearStores.length + 26)) first on₁ with ⟨on₂, viewed₂, same₂⟩
  rw [viewed₁] at viewed₂
  generalize (arrivals (fb.clearStores.length + 26)).foldl fb.storeMouseData first = second
    at on₂ viewed₂ same₂ ⊢
  have at₁ : fb.dataAt arrivals s.toMouse (fb.clearStores.length + 25) = first.data :=
    congrArg Mouse.data viewed₁.symm
  have at₂ : fb.dataAt arrivals s.toMouse (fb.clearStores.length + 26) = second.data :=
    congrArg Mouse.data viewed₂.symm
  have redrawing := interrupted_marks harmless arrivals s.toMouse
    (redrawStores_marks fb arrivals xFirst s.toMouse) on₂ (k := fb.clearStores.length + 27) viewed₂
  simp only [Framebuffer.redrawStores, at₁, at₂] at redrawing
  refine ⟨redrawing.1, fun n => ?_⟩
  simp only [Framebuffer.Whitened, Framebuffer.Blackened, Framebuffer.redrawStores, at₁, at₂]
  rcases redrawing.2.2 n with ⟨white, beside⟩
  rw [same₂, same₁] at beside
  refine ⟨white, ?_, ?_⟩
  · intro never black
    rw [beside never]
    by_cases late : Reached (handled fb.receive arrivals s.toMouse) fb.Forgotten
      fb.clearStores.length (List.range 25) n
    · exact (forgetting n).1 late
    · rw [(forgetting n).2 late]
      exact (clearing n).1 (black.resolve_right late)
  · intro never unmarked
    rw [not_or] at unmarked
    rw [beside never, (forgetting n).2 unmarked.2, (clearing n).2 unmarked.1]

theorem clearScreenUnder_coloured (onScreen : fb.OnScreen s.data) :
    fb.Coloured 25 (fb.clearScreenUnder arrivals xFirst s) := by
  have batch : ∀ (xs : List UInt8) s, fb.Coloured 25 s →
      fb.Coloured 25 (xs.foldl fb.storeMouseData s) :=
    fun xs s coloured => List.foldlRecOn xs _ coloured
      fun s coloured packet _ => storeMouseData_coloured coloured packet
  have stores : ∀ n k (sts : List (Nat × UInt8)) s, fb.Coloured n s →
      fb.Coloured n (interrupted fb.storeMouseData arrivals k (sts.map fun st s =>
        s.put st) s) := by
    intro n k sts s coloured
    refine interrupted_invariant (fun _ => fb.Coloured n)
      (fun _ s packet kept => storeMouseData_coloured kept packet) _ k 0 ?_ s coloured
    intro i bound s kept
    rw [List.getElem_map]
    exact kept
  simp only [Framebuffer.clearScreenUnder]
  apply stores
  apply batch
  apply batch
  refine interrupted_invariant fb.Coloured (fun _ s packet kept =>
    storeMouseData_coloured kept packet)
    ((List.range 25).map fun i s => s.forget i) fb.clearStores.length 0 ?_ _ ?_
  · intro i bound s kept
    rw [List.getElem_map, List.getElem_range]
    rw [Nat.zero_add] at kept ⊢
    exact forget_coloured kept
  · apply stores
    exact ⟨onScreen, fun i none => absurd none (Nat.not_lt_zero i)⟩

theorem blackened_iff {m : Mouse} {a b c : Nat} (column : a < fb.width) (channel : c < 3) :
    fb.Blackened arrivals m (fb.layout.offset a b + c) ↔
      (∃ k, fb.clearStores[k]? = some (fb.layout.offset a b + c, 0) ∧
        ¬ (fb.dataAt arrivals m k).cursor a b) ∨
        ∃ i < 25, (fb.dataAt arrivals m (fb.clearStores.length + i)).pixel i a b := by
  have inside : ∀ region : Raster.Region, fb.layout.Inside region (fb.layout.offset a b + c) ↔
      region a b :=
    fun _ => Layout.inside_offset (r := fb.layout) column channel
  refine or_congr ⟨?_, ?_⟩ ⟨?_, ?_⟩
  · rintro ⟨k, ⟨n, v⟩, place, here, beside⟩
    cases here
    cases clearStores_black _ (List.mem_of_getElem? place)
    rw [Nat.zero_add, inside] at beside
    exact ⟨k, place, beside⟩
  · rintro ⟨k, place, beside⟩
    refine ⟨k, _, place, rfl, ?_⟩
    rw [Nat.zero_add, inside]
    exact beside
  · rintro ⟨j, i, place, under⟩
    rw [List.getElem?_eq_some_iff] at place
    rcases place with ⟨bound, rfl⟩
    rw [List.length_range] at bound
    rw [List.getElem_range] at under
    exact ⟨j, bound, (inside _).mp under⟩
  · rintro ⟨i, entry, under⟩
    exact ⟨i, i, List.getElem?_range entry, (inside _).mpr under⟩

theorem redrawStores_visible {m : Mouse} {st : Nat × UInt8}
    (member : st ∈ fb.redrawStores arrivals xFirst m) :
    ∃ a < fb.width, ∃ b < fb.height, ∃ c < 3, st.1 = fb.layout.offset a b + c := by
  have inside := kdrawStores_inside (by decide) (by decide) member
  exact ⟨_, inside.1, _, inside.2.2.2, _, inside.2.1, (fb.layout.offset_decode st.1).symm⟩

theorem redrawn_of_cleared (onScreen : fb.OnScreen s.data)
    (cleared : fb.Cleared (fb.clearScreenUnder arrivals xFirst s)) {j : Nat} {st : Nat × UInt8}
    (place : (fb.redrawStores arrivals xFirst s.toMouse)[j]? = some st) :
    fb.layout.Inside (fb.dataAt arrivals s.toMouse (fb.clearStores.length + 27 + j)).cursor
      st.1 := by
  by_contra beside
  have dark := (cleared_iff (clearScreenUnder_coloured onScreen)).mp cleared
  have white : fb.Whitened arrivals xFirst s.toMouse st.1 := ⟨j, st, place, rfl, beside⟩
  have bright := ((clearScreenUnder_beneath onScreen).2 st.1).1 white
  rcases redrawStores_visible (List.mem_of_getElem? place) with
    ⟨a, column, b, row, c, channel, here⟩
  rw [here, dark a column b row c channel] at bright
  exact absurd bright (by decide)

/-- On a clear screen, every byte was black or was made black. -/
theorem blackened_of_cleared (onScreen : fb.OnScreen s.data)
    (cleared : fb.Cleared (fb.clearScreenUnder arrivals xFirst s)) {a b c : Nat}
    (column : a < fb.width) (row : b < fb.height) (channel : c < 3) :
    fb.withoutCursor s (fb.layout.offset a b + c) = 0 ∨
      fb.Blackened arrivals s.toMouse (fb.layout.offset a b + c) := by
  have dark := (cleared_iff (clearScreenUnder_coloured onScreen)).mp cleared a column b
    row c channel
  rcases (clearScreenUnder_beneath onScreen).2 (fb.layout.offset a b + c) with ⟨white, _, untouched⟩
  by_cases black : fb.Blackened arrivals s.toMouse (fb.layout.offset a b + c)
  · exact .inr black
  · refine .inl (untouched (fun reached => ?_) black ▸ dark)
    rw [white reached] at dark
    exact absurd dark (by decide)

theorem cleared_of_undisturbed (onScreen : fb.OnScreen s.data)
    (undisturbed : fb.Undisturbed arrivals xFirst s) :
    fb.Cleared (fb.clearScreenUnder arrivals xFirst s) := by
  rw [cleared_iff (clearScreenUnder_coloured onScreen)]
  intro a column b row c channel
  rcases (clearScreenUnder_beneath onScreen).2 (fb.layout.offset a b + c) with ⟨_, black, untouched⟩
  have never : ¬ fb.Whitened arrivals xFirst s.toMouse (fb.layout.offset a b + c) := by
    rintro ⟨j, st, place, here, beside⟩
    exact beside (here ▸ undisturbed.redrawn j st place)
  by_cases blackened : fb.Blackened arrivals s.toMouse (fb.layout.offset a b + c)
  · exact black never blackened
  · have start := undisturbed.cleared a column b row c channel
    rw [← blackened_iff column channel] at start
    rw [untouched never blackened]
    exact start.resolve_right blackened

end Run

section Quiet

variable {fb : Framebuffer} {s : Desktop} {arrivals : Nat → List UInt8} {xFirst : Bool}

theorem foldl_put (sts : List (Nat × UInt8)) (s : Desktop) :
    (sts.map fun st (s : Desktop) => s.put st).foldl (fun s step => step s) s =
      { s with screen := sts.foldl (fun m st => store m st.1 st.2) s.screen } := by
  rw [List.foldl_map]
  induction sts generalizing s with
  | nil => rfl
  | cons st rest ih => exact ih (s.put st)

theorem foldl_forget (n : Nat) (s : Desktop) :
    ((List.range n).map fun i (s : Desktop) => s.forget i).foldl (fun s step => step s) s =
      { s with savedPixels := fun i => if i < n then 0 else s.savedPixels i } := by
  rw [List.foldl_map]
  induction n with
  | zero => simp
  | succ n ih =>
      rw [List.range_succ, List.foldl_append, ih, List.foldl_cons, List.foldl_nil]
      simp only [Desktop.forget, Desktop.mk.injEq, true_and]
      funext i
      by_cases here : i = n
      · rw [here, Function.update_self, if_pos (Nat.lt_succ_self n)]
      · rw [Function.update_of_ne here]
        congr 1
        rw [eq_iff_iff]
        omega

theorem clearScreenUnder_quiet (quiet : ∀ k, arrivals k = []) (s : Desktop) :
    fb.clearScreenUnder arrivals xFirst s = { s with
      savedPixels := fun i => if i < 25 then 0 else s.savedPixels i
      screen := fb.kdrawRectangle (toUInt32 s.data.xPos) (toUInt32 s.data.yPos) 5 5 0xFFFFFF
        (fb.clearScreen s.screen) } := by
  simp only [Framebuffer.clearScreenUnder, quiet, List.foldl_nil,
    interrupted_quiet _ fun _ _ => quiet _, foldl_put, foldl_forget, clearStores_clear,
      kdrawStores_draw, ite_self]

theorem dataAt_quiet (quiet : ∀ k, arrivals k = []) (m : Mouse) (k : Nat) :
    fb.dataAt arrivals m k = m.data :=
  congrArg Mouse.data (handled_quiet (Nat.zero_le _) fun k _ _ => quiet k)

theorem undisturbed_quiet (onScreen : fb.OnScreen s.data) (quiet : ∀ k, arrivals k = []) :
    fb.Undisturbed arrivals xFirst s := by
  have left := onScreen.x_nonneg
  have right := onScreen.x_le
  have top := onScreen.y_nonneg
  have bottom := onScreen.y_le
  have widths := fb.width_lt
  have heights := fb.height_lt
  constructor
  · intro j st place
    have member := List.mem_of_getElem? place
    simp only [Framebuffer.redrawStores, dataAt_quiet quiet, ite_self] at member
    rw [dataAt_quiet quiet]
    rcases kdrawStores_inside (by decide) (by decide) member with
      ⟨column, channel, ⟨columns, rows⟩, _⟩
    unfold toUInt32 at columns rows
    exact ⟨column, channel, by omega, by omega⟩
  · intro a column b row c channel
    simp only [dataAt_quiet quiet]
    by_cases under : s.data.cursor a b
    · rcases under with ⟨columns, rows⟩
      refine .inr (.inr ⟨a - s.data.xPos.toNat + (b - s.data.yPos.toNat) * 5, by omega, ?_, ?_⟩) <;>
        omega
    · rcases List.getElem?_of_mem (mem_clearStores column row channel) with ⟨k, place⟩
      exact .inr (.inl ⟨k, place, under⟩)

end Quiet

section Results

variable {fb : Framebuffer} {s : Desktop} {arrivals : Nat → List UInt8} {xFirst : Bool}

/-- Whatever the screen shows and whatever the mouse sends in the middle of `clear_screen`, it
leaves a clean screen exactly when the cursor moves in a way that does no harm. -/
theorem clear_screen_iff (onScreen : fb.OnScreen s.data) :
    fb.Cleared (fb.clearScreenUnder arrivals xFirst s) ↔ fb.Undisturbed arrivals xFirst s := by
  constructor
  · intro cleared
    constructor
    · exact fun j st place => redrawn_of_cleared onScreen cleared place
    · intro a column b row c channel
      rw [← blackened_iff column channel]
      exact blackened_of_cleared onScreen cleared column row channel
  · exact cleared_of_undisturbed onScreen

end Results

theorem clear_screen_square :
    squareScreen.Cleared (squareScreen.clearScreenUnder (fun _ => []) true blackDesktop) :=
  (clear_screen_iff black_onScreen).mpr (undisturbed_quiet black_onScreen fun _ => rfl)

def greyDesktop : Desktop := squareScreen.initializeCursor fun _ => 1

def packetAt (n k : Nat) : List UInt8 := if k = n then tenRight else []

theorem dataAt_packet (m : Mouse) (n k : Nat) :
    squareScreen.dataAt (packetAt n) m k =
      if k < n then m.data else (tenRight.foldl squareScreen.receive m).data := by
  have once : ∀ j, j ≠ n → packetAt n j = [] := fun _ other => if_neg other
  rw [Framebuffer.dataAt, handled_once once, packetAt, if_pos rfl, apply_ite Mouse.data]

/-- The cursor moves away when the screen is black and `saved_pixels` is not yet, and leaves the old
colours behind. -/
theorem clear_screen_stains :
    squareScreen.OnScreen greyDesktop.data ∧
      ¬ squareScreen.Cleared
        (squareScreen.clearScreenUnder (packetAt squareScreen.clearStores.length) true
        greyDesktop) := by
  have onScreen : squareScreen.OnScreen greyDesktop.data :=
    ⟨by decide, by decide, by decide, by decide⟩
  refine ⟨onScreen, fun cleared => ?_⟩
  have moved : (tenRight.foldl squareScreen.receive greyDesktop.toMouse).data.xPos = 110 := by
    decide
  have start : squareScreen.withoutCursor greyDesktop = fun _ => 1 :=
    (initializeCursor_over (by decide) (by decide) fun _ => 1).restored
  have reached := blackened_of_cleared onScreen cleared (a := 100) (b := 100) (c := 0)
    (by decide) (by decide)
    (by decide)
  rw [start, blackened_iff (by decide) (by decide)] at reached
  rcases reached with black | ⟨k, place, beside⟩ | ⟨i, entry, under⟩
  · exact absurd black (by decide)
  · rw [dataAt_packet, if_pos (List.getElem?_eq_some_iff.mp place).1] at beside
    exact beside ⟨⟨by decide, by decide⟩, by decide, by decide⟩
  · rw [dataAt_packet, if_neg (Nat.not_lt.mpr (Nat.le_add_right _ _))] at under
    have column := under.1
    rw [moved] at column
    omega

end PaintKernel
