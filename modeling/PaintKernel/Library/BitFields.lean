import Mathlib
import PaintKernel.Library.ByteMemory

set_option autoImplicit false

/-! Records of bit fields packed into byte memory. -/

namespace BitFields

open ByteMemory

structure Field where
  first : Nat
  width : Nat
deriving DecidableEq

def Field.Apart (f g : Field) : Prop := f.first + f.width ≤ g.first ∨ g.first + g.width ≤ f.first

instance (f g : Field) : Decidable (f.Apart g) := inferInstanceAs (Decidable (_ ∨ _))

/-- The fields of these widths, each right behind the one before it. -/
def packed : Nat → List Nat → List Field
  | _, [] => []
  | first, width :: widths => ⟨first, width⟩ :: packed (first + width) widths

def bitAt (m : Mem) (k : Nat) : Bool := (m (k / 8)).toNat.testBit (k % 8)

def ofBits (bits : Nat → Bool) : Mem :=
  fun n => UInt8.ofNat (Nat.ofBits fun j : Fin 8 => bits (8 * n + j))

def get (m : Mem) (base : Nat) (f : Field) : Nat :=
  Nat.ofBits fun i : Fin f.width => bitAt m (8 * base + f.first + i)

def set (m : Mem) (base : Nat) (f : Field) (value : Nat) : Mem :=
  ofBits fun k => if 8 * base + f.first ≤ k ∧ k < 8 * base + f.first + f.width
    then value.testBit (k - (8 * base + f.first)) else bitAt m k

def assign (m : Mem) (base : Nat) (values : List (Field × Nat)) : Mem :=
  values.foldl (fun m v => set m base v.1 v.2) m

variable {m m' : Mem} {base size k n value : Nat} {f g : Field} {values : List (Field × Nat)}

instance : Std.Symm Field.Apart := ⟨fun _ _ => Or.symm⟩

theorem bitAt_ofBits (bits : Nat → Bool) (k : Nat) : bitAt (ofBits bits) k = bits k := by
  have below : Nat.ofBits (fun j : Fin 8 => bits (8 * (k / 8) + j)) < 256 := Nat.ofBits_lt_two_pow _
  have inside : k % 8 < 8 := Nat.mod_lt k (by decide)
  rw [bitAt, ofBits, UInt8.toNat_ofNat', Nat.mod_eq_of_lt below, Nat.testBit_ofBits_lt _ _ inside,
    Nat.div_add_mod]

theorem ofBits_apply (bits : Nat → Bool)
    (unchanged : ∀ j < 8, bits (8 * n + j) = bitAt m (8 * n + j)) :
    ofBits bits n = m n := by
  have digits : (fun j : Fin 8 => bits (8 * n + j)) = fun j : Fin 8 => (m n).toNat.testBit j := by
    funext j
    have byte : (8 * n + j) / 8 = n := by omega
    have bit : (8 * n + j) % 8 = j := by omega
    rw [unchanged j j.isLt, bitAt, byte, bit]
  rw [ofBits, digits, Nat.ofBits_testBit, Nat.mod_eq_of_lt (m n).toNat_lt, UInt8.ofNat_toNat]

theorem testBit_get (m : Mem) (base : Nat) (f : Field) (i : Nat) :
    (get m base f).testBit i = (decide (i < f.width) && bitAt m (8 * base + f.first + i)) := by
  by_cases inside : i < f.width
  · rw [get, Nat.testBit_ofBits_lt _ _ inside, decide_eq_true inside, Bool.true_and]
  · rw [get, Nat.testBit_ofBits_ge _ _ (Nat.le_of_not_lt inside), decide_eq_false inside,
      Bool.false_and]

theorem get_congr (same : ∀ i < f.width, bitAt m' (8 * base + f.first + i) =
    bitAt m (8 * base + f.first + i)) :
    get m' base f = get m base f := by
  apply Nat.eq_of_testBit_eq
  intro i
  rw [testBit_get, testBit_get]
  by_cases inside : i < f.width
  · rw [same i inside]
  · rw [decide_eq_false inside, Bool.false_and, Bool.false_and]

theorem get_set (m : Mem) (base : Nat) (f : Field) (value : Nat) :
    get (set m base f value) base f = value % 2 ^ f.width := by
  apply Nat.eq_of_testBit_eq
  intro i
  rw [testBit_get, Nat.testBit_mod_two_pow]
  by_cases inside : i < f.width
  · rw [set, bitAt_ofBits, if_pos (by omega), Nat.add_sub_cancel_left]
  · rw [decide_eq_false inside, Bool.false_and, Bool.false_and]

theorem get_set_apart (m : Mem) (base value : Nat) (apart : f.Apart g) :
    get (set m base g value) base f = get m base f := by
  apply get_congr
  intro i inside
  unfold Field.Apart at apart
  rw [set, bitAt_ofBits, if_neg (by omega)]

theorem set_outside (m : Mem) (value : Nat) (within : f.first + f.width ≤ 8 * size)
    (outside : n < base ∨ base + size ≤ n) : set m base f value n = m n := by
  apply ofBits_apply
  intro j bit
  rw [if_neg (by omega)]

theorem assign_cons (m : Mem) (base : Nat) (v : Field × Nat) (values : List (Field × Nat)) :
    assign m base (v :: values) = assign (set m base v.1 v.2) base values := rfl

theorem get_assign_apart (m : Mem) (base : Nat) (apart : ∀ v ∈ values, f.Apart v.1) :
    get (assign m base values) base f = get m base f := by
  induction values generalizing m with
  | nil => rfl
  | cons v values ih =>
      rw [List.forall_mem_cons] at apart
      rw [assign_cons, ih _ apart.2, get_set_apart _ _ _ apart.1]

/-- After stores to fields that are apart, each field holds its value, truncated to its width. -/
theorem get_assign (m : Mem) (base : Nat) (apart : (values.map Prod.fst).Pairwise Field.Apart)
    (member : (f, value) ∈ values) : get (assign m base values) base f = value % 2 ^ f.width := by
  induction values generalizing m with
  | nil => cases member
  | cons v values ih =>
      rw [List.map_cons, List.pairwise_cons] at apart
      rw [assign_cons]
      rcases List.mem_cons.mp member with rfl | later
      · rw [get_assign_apart, get_set]
        intro v later
        exact apart.1 v.1 (List.mem_map_of_mem later)
      · exact ih _ apart.2 later

theorem assign_outside (m : Mem) (base : Nat)
    (within : ∀ v ∈ values, v.1.first + v.1.width ≤ 8 * size) :
    AgreeOutside m (assign m base values) base size := by
  induction values generalizing m with
  | nil =>
      intro n outside
      rfl
  | cons v values ih =>
      rw [List.forall_mem_cons] at within
      intro n outside
      rw [assign_cons, ih _ within.2 n outside, set_outside _ _ within.1 outside]

theorem packed_first {first : Nat} {widths : List Nat} (member : f ∈ packed first widths) :
    first ≤ f.first := by
  induction widths generalizing first with
  | nil => cases member
  | cons width widths ih =>
      rcases List.mem_cons.mp member with rfl | later
      · exact Nat.le_refl first
      · exact Nat.le_trans (Nat.le_add_right first width) (ih later)

theorem packed_apart (first : Nat) (widths : List Nat) :
    (packed first widths).Pairwise Field.Apart := by
  induction widths generalizing first with
  | nil => exact List.Pairwise.nil
  | cons width widths ih =>
      apply List.Pairwise.cons _ (ih (first + width))
      intro g later
      exact Or.inl (packed_first later)

theorem packed_within {first : Nat} {widths : List Nat} (member : f ∈ packed first widths) :
    f.first + f.width ≤ first + widths.sum := by
  induction widths generalizing first with
  | nil => cases member
  | cons width widths ih =>
      rw [List.sum_cons]
      rcases List.mem_cons.mp member with rfl | later
      · exact Nat.add_le_add_left (Nat.le_add_right width _) first
      · exact (ih later).trans_eq (Nat.add_assoc first width _)

theorem apart_of_packed {first : Nat} {widths : List Nat} {fields : List Field}
    (distinct : fields.Nodup) (among : fields ⊆ packed first widths) :
    fields.Pairwise Field.Apart := by
  apply distinct.pairwise_of_forall_ne
  intro f member g other different
  exact (packed_apart first widths).forall (among member) (among other) different

section Records

variable {widths : List Nat}

theorem get_assign_packed (m : Mem) (base : Nat) (distinct : (values.map Prod.fst).Nodup)
    (among : values.map Prod.fst ⊆ packed 0 widths) (member : (f, value) ∈ values) :
    get (assign m base values) base f = value % 2 ^ f.width :=
  get_assign m base (apart_of_packed distinct among) member

theorem assign_packed_outside (m : Mem) (base : Nat) (among : values.map Prod.fst ⊆ packed 0 widths)
    (total : widths.sum = 8 * size) : AgreeOutside m (assign m base values) base size := by
  apply assign_outside
  intro v stored
  rw [← total, ← Nat.zero_add widths.sum]
  exact packed_within (among (List.mem_map_of_mem stored))

theorem get_packed_congr (member : f ∈ packed 0 widths) (total : widths.sum = 8 * size)
    (same : ∀ i < size, m' (base + i) = m (base + i)) : get m' base f = get m base f := by
  have within := packed_within member
  apply get_congr
  intro i inside
  have byte : (8 * base + f.first + i) / 8 = base + (f.first + i) / 8 := by omega
  rw [bitAt, bitAt, byte, same _ (by omega)]

theorem get_packed_zero (member : f ∈ packed 0 widths) (total : widths.sum = 8 * size)
    (zeroes : ∀ i < size, m (base + i) = 0) : get m base f = 0 := by
  have nothing : get (fun _ => 0) base f = 0 := by
    apply Nat.eq_of_testBit_eq
    intro i
    rw [testBit_get, bitAt, UInt8.toNat_zero, Nat.zero_testBit, Nat.zero_testBit, Bool.and_false]
  rw [← nothing]
  exact get_packed_congr member total zeroes

end Records

end BitFields
