import Mathlib
import PaintKernel.Cursor

set_option autoImplicit false

/-! What `store_mouse_data` makes of a stream of whole packets. -/

namespace PaintKernel

structure Packet where
  flags : UInt8
  xMove : UInt8
  yMove : UInt8
  deriving DecidableEq, Repr

namespace Packet

def bytes (p : Packet) : List UInt8 := [p.flags, p.xMove, p.yMove]

def Aligned (p : Packet) : Prop := p.flags.toNat.testBit 3 = true

def xSign (p : Packet) : Bool := p.flags.toNat.testBit 4
def ySign (p : Packet) : Bool := p.flags.toNat.testBit 5

def dx (p : Packet) : Int := p.xMove.toNat - 256 * (p.xSign.toNat : Int)
def dy (p : Packet) : Int := p.yMove.toNat - 256 * (p.ySign.toNat : Int)

end Packet

def clamp (high x : Int) : Int := max 0 (min high x)

def Desktop.position (s : Desktop) : Int × Int := (s.data.xPos, s.data.yPos)

namespace Framebuffer

variable (fb : Framebuffer)

/-- Where a packet moves the cursor by the PS/2 protocol. -/
def decodePacket (position : Int × Int) (p : Packet) : Int × Int :=
  (clamp (fb.width - 6) (position.1 + Int.tdiv p.dx 5),
    clamp (fb.height - 6) (position.2 - Int.tdiv p.dy 5))

/-- The bytes of the packets leave `store_mouse_data` ready for the next packet, with the cursor
where the packets put it. -/
def Decodes (s : Desktop) (packets : List Packet) : Prop :=
  let after := (packets.flatMap Packet.bytes).foldl fb.storeMouseData s
  after.mouseCounter = 0 ∧ after.position = packets.foldl fb.decodePacket s.position

/-- A negative movement one above a multiple of five in its low byte is off by a pixel, unless the
edge of the screen stops the cursor before that pixel. -/
def Exact (position : Int × Int) (p : Packet) : Prop :=
  (p.xSign = true → p.xMove.toNat % 5 = 1 → position.1 < (256 - p.xMove.toNat : Int) / 5) ∧
    (p.ySign = true → p.yMove.toNat % 5 = 1 →
      (fb.height : Int) - 6 ≤ position.2 + (255 - p.yMove.toNat : Int) / 5)

def ExactAlong : Int × Int → List Packet → Prop
  | _, [] => True
  | position, p :: rest => fb.Exact position p ∧ ExactAlong (fb.decodePacket position p) rest

end Framebuffer

section Axes

theorem tdiv_negative (n : Nat) (c : Int) (small : (n : Int) ≤ c) :
    Int.tdiv (n - c) 5 = -((c - n) / 5) := by
  rw [show (n : Int) - c = -(c - n) by ring, Int.neg_tdiv, Int.tdiv_eq_ediv_of_nonneg (by omega)]

theorem tdiv_positive (n : Nat) : Int.tdiv n 5 = (n : Int) / 5 :=
  Int.tdiv_eq_ediv_of_nonneg (Int.natCast_nonneg n)

variable {fb : Framebuffer} {mousebytes : MouseBytes} {data : MouseData} {p : Packet}

structure Received (mousebytes : MouseBytes) (p : Packet) : Prop where
  xSb : mousebytes.xSb = p.xSign.toNat
  ySb : mousebytes.ySb = p.ySign.toNat
  xMove : mousebytes.xMove = p.xMove.toNat
  yMove : mousebytes.yMove = p.yMove.toNat

theorem move_x_iff (received : Received mousebytes p) (onScreen : fb.OnScreen data) :
    (fb.move mousebytes data).xPos = clamp (fb.width - 6) (data.xPos + Int.tdiv p.dx 5) ↔
      (p.xSign = true → p.xMove.toNat % 5 = 1 → data.xPos < (256 - p.xMove.toNat : Int) / 5) := by
  have left := onScreen.x_nonneg
  have right := onScreen.x_le
  have byte := p.xMove.toNat_lt
  simp only [Framebuffer.move, received.xSb, received.xMove, Packet.dx, clamp]
  cases p.xSign with
  | false =>
      simp only [Bool.toNat_false, zero_ne_one, if_false, Nat.cast_zero, mul_zero, sub_zero,
        tdiv_positive, Bool.false_eq_true, false_implies, iff_true]
      split_ifs <;> omega
  | true =>
      simp only [Bool.toNat_true, if_true, Nat.cast_one, mul_one, true_implies]
      rw [tdiv_negative _ 255 (by omega), tdiv_negative _ 256 (by omega)]
      split_ifs <;> omega

theorem move_y_iff (received : Received mousebytes p) (onScreen : fb.OnScreen data) :
    (fb.move mousebytes data).yPos = clamp (fb.height - 6) (data.yPos - Int.tdiv p.dy 5) ↔
      (p.ySign = true → p.yMove.toNat % 5 = 1 →
        (fb.height : Int) - 6 ≤ data.yPos + (255 - p.yMove.toNat : Int) / 5) := by
  have top := onScreen.y_nonneg
  have bottom := onScreen.y_le
  have byte := p.yMove.toNat_lt
  simp only [Framebuffer.move, received.ySb, received.yMove, Packet.dy, clamp]
  cases p.ySign with
  | false =>
      simp only [Bool.toNat_false, zero_ne_one, if_false, Nat.cast_zero, mul_zero, sub_zero,
        tdiv_positive, Bool.false_eq_true, false_implies, iff_true]
      split_ifs <;> omega
  | true =>
      simp only [Bool.toNat_true, if_true, Nat.cast_one, mul_one, true_implies]
      rw [tdiv_negative _ 255 (by omega), tdiv_negative _ 256 (by omega)]
      split_ifs <;> omega

end Axes

section Packets

variable {fb : Framebuffer} {s : Desktop} {p : Packet} {packets : List Packet}

theorem aligned_bit (aligned : p.Aligned) : (p.flags.toNat &&& 0x8) >>> 3 ≠ 0 := by
  rw [show 0x8 = 2 ^ 3 by decide, shifted_bit, show p.flags.toNat.testBit 3 = true from aligned]
  decide

/-- The three bytes of a packet end in one move of the cursor. -/
theorem receive_packet (fb : Framebuffer) {m : Mouse} (start : m.mouseCounter = 0)
    (aligned : p.Aligned) :
    ∃ mousebytes data, Received mousebytes p ∧ data.xPos = m.data.xPos ∧ data.yPos = m.data.yPos ∧
      p.bytes.foldl fb.receive m = ⟨fb.move mousebytes data, mousebytes, 0⟩ := by
  rcases m with ⟨data, mousebytes, counter⟩
  subst start
  let first : Mouse := Mouse.buttons p.flags ⟨data, mousebytes, 0⟩
  let read : MouseBytes := { first.mousebytes with
    xSb := (p.flags.toNat &&& 0x10) >>> 4
    ySb := (p.flags.toNat &&& 0x20) >>> 5
    xMove := p.xMove.toNat
    yMove := p.yMove.toNat }
  refine ⟨read, first.data, ?_, rfl, rfl, ?_⟩
  · exact ⟨shifted_bit p.flags.toNat 4, shifted_bit p.flags.toNat 5, rfl, rfl⟩
  · have flags : fb.receive ⟨data, mousebytes, 0⟩ p.flags =
        { first with
          mousebytes := { first.mousebytes with
            xSb := (p.flags.toNat &&& 0x10) >>> 4
            ySb := (p.flags.toNat &&& 0x20) >>> 5 }
          mouseCounter := 1 } := if_neg (aligned_bit aligned)
    rw [Packet.bytes, List.foldl_cons, flags]
    rfl

theorem packet_step (start : s.mouseCounter = 0) (onScreen : fb.OnScreen s.data)
    (aligned : p.Aligned) :
    let after := p.bytes.foldl fb.storeMouseData s
    after.mouseCounter = 0 ∧ fb.OnScreen after.data ∧
      (after.position = fb.decodePacket s.position p ↔ fb.Exact s.position p) := by
  intro after
  rcases receive_packet fb start aligned with ⟨mousebytes, data, received, column, row, result⟩
  have mouse : after.toMouse = ⟨fb.move mousebytes data, mousebytes, 0⟩ :=
    (foldl_mouse fb p.bytes s).trans result
  have moved : after.data = fb.move mousebytes data := congrArg Mouse.data mouse
  have before : fb.OnScreen data :=
    ⟨column ▸ onScreen.x_nonneg, column ▸ onScreen.x_le, row ▸ onScreen.y_nonneg,
      row ▸ onScreen.y_le⟩
  have wide : 6 ≤ fb.width := by
    have left := onScreen.x_nonneg
    have right := onScreen.x_le
    omega
  have tall : 6 ≤ fb.height := by
    have top := onScreen.y_nonneg
    have bottom := onScreen.y_le
    omega
  refine ⟨congrArg Mouse.mouseCounter mouse, moved ▸ move_onScreen wide tall mousebytes data, ?_⟩
  rw [Desktop.position, Framebuffer.decodePacket, Prod.mk.injEq, moved, Framebuffer.Exact]
  simp only [Desktop.position, ← column, ← row]
  rw [move_x_iff received before, move_y_iff received before]

/-- The cursor follows a stream of packets, at every packet of it, exactly when every packet is
exact where it arrives. -/
theorem packets_decoded_iff (start : s.mouseCounter = 0) (onScreen : fb.OnScreen s.data)
    (aligned : ∀ p ∈ packets, p.Aligned) :
    (∀ front, front <+: packets → fb.Decodes s front) ↔ fb.ExactAlong s.position packets := by
  induction packets generalizing s with
  | nil =>
      simp only [List.prefix_nil, forall_eq, Framebuffer.ExactAlong, iff_true]
      exact ⟨start, rfl⟩
  | cons p rest ih =>
      rcases packet_step start onScreen (aligned p List.mem_cons_self) with
        ⟨start', onScreen', moved⟩
      have later := ih start' onScreen' (fun q member => aligned q (List.mem_cons_of_mem p member))
      rw [Framebuffer.ExactAlong, ← moved]
      -- a front of the stream is empty or goes on where the first packet put the cursor
      have shift : (p.bytes.foldl fb.storeMouseData s).position = fb.decodePacket s.position p →
          ∀ front, fb.Decodes s (p :: front) ↔
            fb.Decodes (p.bytes.foldl fb.storeMouseData s) front := by
        intro here front
        simp only [Framebuffer.Decodes, List.flatMap_cons, List.foldl_append, List.foldl_cons]
        rw [here]
      constructor
      · intro decodes
        have here := (decodes [p] ⟨rest, rfl⟩).2
        rw [List.flatMap_singleton, List.foldl_cons, List.foldl_nil] at here
        refine ⟨here, ?_⟩
        rw [← here]
        refine later.mp (fun front inside => ?_)
        exact (shift here front).mp (decodes (p :: front) (List.cons_prefix_cons.mpr ⟨rfl, inside⟩))
      · rintro ⟨here, exact'⟩ front inside
        cases front with
        | nil => exact ⟨start, rfl⟩
        | cons q front =>
            rcases List.cons_prefix_cons.mp inside with ⟨rfl, within⟩
            rw [shift here]
            exact later.mpr (here ▸ exact') front within

end Packets

theorem square_decoded :
    squareScreen.Decodes (squareScreen.initializeCursor fun _ => 0) [⟨0x08, 50, 0⟩] := by
  refine (packets_decoded_iff rfl ⟨by decide, by decide, by decide, by decide⟩ ?_).mpr ?_ _
    (List.prefix_refl _)
  · intro p member
    rw [List.mem_singleton.mp member]
    exact (by decide : (0x08 : UInt8).toNat.testBit 3 = true)
  · exact ⟨⟨fun sign => absurd sign (by decide), fun sign => absurd sign (by decide)⟩, trivial⟩

theorem square_left_lost :
    (⟨0x18, 251, 0⟩ : Packet).Aligned ∧ (⟨0x18, 251, 0⟩ : Packet).dx = -5 ∧
      squareScreen.OnScreen (squareScreen.initializeCursor fun _ => 0).data ∧
      (squareScreen.initializeCursor fun _ => 0).mouseCounter = 0 ∧
      ¬ squareScreen.Decodes (squareScreen.initializeCursor fun _ => 0) [⟨0x18, 251, 0⟩] := by
  have aligned : (⟨0x18, 251, 0⟩ : Packet).Aligned :=
    (by decide : (0x18 : UInt8).toNat.testBit 3 = true)
  have onScreen : squareScreen.OnScreen (squareScreen.initializeCursor fun _ => 0).data :=
    ⟨by decide, by decide, by decide, by decide⟩
  refine ⟨aligned, by decide, onScreen, rfl, ?_⟩
  intro decodes
  have exact' := (packet_step rfl onScreen aligned).2.2.mp decodes.2
  exact absurd (exact'.1 (by decide) (by decide)) (by decide)

end PaintKernel
