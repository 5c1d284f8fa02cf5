import Mathlib

set_option autoImplicit false

/-! Byte-addressed memory with little-endian words. -/

namespace ByteMemory

abbrev Mem := Nat → UInt8

def store (m : Mem) (address : Nat) (byte : UInt8) : Mem :=
  fun n => if n = address then byte else m n

def readLE (m : Mem) : Nat → Nat → Nat
  | _, 0 => 0
  | address, width + 1 => (m address).toNat + 256 * readLE m (address + 1) width

/-- Exactly `width` little-endian bytes of `value`, truncating modulo `256 ^ width`. -/
def writeLE (m : Mem) (address width value : Nat) : Mem :=
  fun n => if address ≤ n ∧ n < address + width
    then UInt8.ofNat (value / 256 ^ (n - address)) else m n

def fill (m : Mem) (address count : Nat) (byte : UInt8) : Mem :=
  fun n => if address ≤ n ∧ n < address + count then byte else m n

def AgreeOutside (m m' : Mem) (address count : Nat) : Prop :=
  ∀ n, n < address ∨ address + count ≤ n → m' n = m n

@[simp] theorem store_here (m : Mem) (address : Nat) (byte : UInt8) :
    store m address byte address = byte := if_pos rfl

theorem store_elsewhere (m : Mem) (address n : Nat) (byte : UInt8) (different : n ≠ address) :
    store m address byte n = m n := if_neg different

theorem store_store (m : Mem) (address : Nat) (first second : UInt8) :
    store (store m address first) address second = store m address second := by
  funext n
  unfold store
  split_ifs <;> rfl

theorem foldl_store {stores : List (Nat × UInt8)} {byte : UInt8} (same : ∀ st ∈ stores, st.2 = byte)
    (m : Mem) (n : Nat) :
    stores.foldl (fun m st => store m st.1 st.2) m n = if (n, byte) ∈ stores then byte
      else m n := by
  induction stores generalizing m with
  | nil => rfl
  | cons st rest ih =>
      rw [List.forall_mem_cons] at same
      rw [List.foldl_cons, ih same.2]
      by_cases later : (n, byte) ∈ rest
      · rw [if_pos later, if_pos (List.mem_cons_of_mem st later)]
      · rw [if_neg later, same.1]
        by_cases now : n = st.1
        · have here : (n, byte) = st := Prod.ext now same.1.symm
          rw [here, if_pos List.mem_cons_self, now, store_here]
        · rw [store_elsewhere _ _ _ _ now, if_neg]
          intro member
          rcases List.mem_cons.mp member with here | there
          · exact now (congrArg Prod.fst here)
          · exact later there

theorem readLE_lt (m : Mem) (address width : Nat) : readLE m address width < 256 ^ width := by
  induction width generalizing address with
  | zero => exact Nat.one_pos
  | succ width ih =>
      have byte := (m address).toNat_lt
      have tail := ih (address + 1)
      rw [readLE, pow_succ']
      omega

theorem readLE_congr (m m' : Mem) (address width : Nat)
    (agree : ∀ n, address ≤ n → n < address + width → m' n = m n) :
    readLE m' address width = readLE m address width := by
  induction width generalizing address with
  | zero => rfl
  | succ width ih =>
      have tail := ih (address + 1) (fun n lower upper => agree n (by omega) (by omega))
      simp only [readLE, tail, agree address (Nat.le_refl _) (by omega)]

theorem readLE_digits (m : Mem) (address width value : Nat)
    (digits : ∀ i < width, m (address + i) = UInt8.ofNat (value / 256 ^ i)) :
    readLE m address width = value % 256 ^ width := by
  induction width generalizing address value with
  | zero => simp [readLE, Nat.mod_one]
  | succ width ih =>
      have head : (m address).toNat = value % 256 := by
        have first := digits 0 (by omega)
        simp only [Nat.add_zero, pow_zero, Nat.div_one] at first
        simp [first]
      have tail := ih (address + 1) (value / 256) (by
        intro i bound
        have digit := digits (i + 1) (by omega)
        rw [Nat.div_div_eq_div_mul, ← pow_succ', show address + 1 + i = address + (i + 1) by omega]
        exact digit)
      rw [readLE, head, tail, pow_succ', Nat.mod_mul]

theorem readLE_zero (m : Mem) (address width : Nat)
    (zeroes : ∀ n, address ≤ n → n < address + width → m n = 0) : readLE m address width = 0 := by
  have digits := readLE_digits m address width 0
    (by intro i bound; simpa using zeroes (address + i) (by omega) (by omega))
  simpa using digits

theorem writeLE_outside (m : Mem) (address width value n : Nat)
    (outside : n < address ∨ address + width ≤ n) : writeLE m address width value n = m n :=
  if_neg (by omega)

theorem writeLE_agreeOutside (m : Mem) (address width value : Nat) :
    AgreeOutside m (writeLE m address width value) address width :=
  fun n outside => writeLE_outside m address width value n outside

theorem readLE_writeLE (m : Mem) (address width value : Nat) (fits : value < 256 ^ width) :
    readLE (writeLE m address width value) address width = value := by
  rw [readLE_digits _ address width value, Nat.mod_eq_of_lt fits]
  intro i bound
  simp [writeLE, bound]

theorem readLE_digit (m : Mem) (address width i : Nat) (inside : i < width) :
    UInt8.ofNat (readLE m address width / 256 ^ i) = m (address + i) := by
  induction i generalizing address width with
  | zero =>
      obtain ⟨width, rfl⟩ := Nat.exists_eq_add_of_lt inside
      have byte := (m address).toNat_lt
      rw [Nat.zero_add, readLE, pow_zero, Nat.div_one, ← UInt8.toNat_inj, UInt8.toNat_ofNat']
      simp only [Nat.add_zero]
      omega
  | succ i ih =>
      obtain ⟨width, rfl⟩ := Nat.exists_eq_add_of_lt inside
      have byte := (m address).toNat_lt
      have tail := ih (address + 1) (i + 1 + width) (by omega)
      have shifted : readLE m address (i + 1 + width + 1) / 256 =
          readLE m (address + 1) (i + 1 + width) := by
        rw [readLE]
        omega
      rw [pow_succ', ← Nat.div_div_eq_div_mul, shifted, tail]
      congr 1
      omega

theorem writeLE_readLE (m : Mem) (address width : Nat) :
    writeLE m address width (readLE m address width) = m := by
  funext n
  by_cases inside : address ≤ n ∧ n < address + width
  · have digit := readLE_digit m address width (n - address) (by omega)
    rw [Nat.add_sub_of_le inside.1] at digit
    rw [writeLE, if_pos inside, digit]
  · exact if_neg inside

theorem readLE_agree (m m' : Mem) (address count other width : Nat)
    (agree : AgreeOutside m m' address count)
    (disjoint : other + width ≤ address ∨ address + count ≤ other) :
    readLE m' other width = readLE m other width :=
  readLE_congr m m' other width (fun n lower upper => agree n (by omega))

theorem fill_inside (m : Mem) (address count n : Nat) (byte : UInt8)
    (lower : address ≤ n) (upper : n < address + count) : fill m address count byte n = byte :=
  if_pos ⟨lower, upper⟩

theorem fill_agreeOutside (m : Mem) (address count : Nat) (byte : UInt8) :
    AgreeOutside m (fill m address count byte) address count :=
  fun _ outside => if_neg (by omega)

theorem fill_succ (m : Mem) (address count : Nat) (byte : UInt8) :
    fill m address (count + 1) byte = store (fill m address count byte) (address + count) byte := by
  funext n
  simp only [fill, store]
  split_ifs <;> first | rfl | omega

theorem fill_zero (m : Mem) (address : Nat) (byte : UInt8) : fill m address 0 byte = m := by
  funext n
  exact if_neg (by omega)

/-- A forward copy to lower addresses reads every byte before it overwrites it, also where the two
ranges overlap. -/
theorem foldl_copy (m : Mem) (des shift count : Nat) :
    (List.range count).foldl (fun m i => store m (des + i) (m (des + shift + i))) m =
      fun n => if des ≤ n ∧ n < des + count then m (n + shift) else m n := by
  induction count with
  | zero =>
      funext n
      rw [if_neg (by omega)]
      rfl
  | succ count ih =>
      rw [List.range_succ, List.foldl_append, ih]
      funext n
      simp only [List.foldl_cons, List.foldl_nil, store]
      by_cases last : n = des + count
      · rw [if_pos last, if_neg (by omega), if_pos (by omega), last]
        congr 1
        omega
      · rw [if_neg last]
        split_ifs <;> first | rfl | omega

section Overwriting

variable {A : Type} {n : Nat}

/-- What the byte holds afterwards does not depend on the memory before. -/
def Overwrites (draw : Mem → Mem) (n : Nat) : Prop := ∃ byte, ∀ m, draw m n = byte

def Blind (draw : Mem → Mem) : Prop := ∀ n, Overwrites draw n ∨ ∀ m, draw m n = m n

theorem store_overwrites (address : Nat) (byte : UInt8) :
    Overwrites (fun m => store m address byte) address :=
  ⟨byte, fun m => store_here m address byte⟩

theorem store_blind (address : Nat) (byte : UInt8) : Blind fun m => store m address byte := by
  intro n
  by_cases here : n = address
  · rw [here]
    exact Or.inl (store_overwrites address byte)
  · exact Or.inr fun m => store_elsewhere m address n byte here

variable {first second : Mem → Mem}

theorem Overwrites.before (written : Overwrites first n) (blind : Blind second) :
    Overwrites (fun m => second (first m)) n := by
  rcases blind n with ⟨byte, again⟩ | kept
  · exact ⟨byte, fun m => again (first m)⟩
  · obtain ⟨byte, written⟩ := written
    exact ⟨byte, fun m => (kept (first m)).trans (written m)⟩

theorem Overwrites.after (written : Overwrites second n) :
    Overwrites (fun m => second (first m)) n := by
  obtain ⟨byte, written⟩ := written
  exact ⟨byte, fun m => written (first m)⟩

theorem Blind.andThen (left : Blind first) (right : Blind second) :
    Blind fun m => second (first m) := by
  intro n
  rcases right n with written | kept
  · exact Or.inl written.after
  · rcases left n with written | unchanged
    · exact Or.inl (written.before right)
    · exact Or.inr fun m => (kept (first m)).trans (unchanged m)

variable {draw : A → Mem → Mem}

theorem blind_foldl (each : ∀ a, Blind (draw a)) (items : List A) :
    Blind fun m => items.foldl (fun m a => draw a m) m := by
  induction items with
  | nil => exact fun n => Or.inr fun m => rfl
  | cons a rest ih => exact (each a).andThen ih

theorem overwrites_foldl (each : ∀ a, Blind (draw a)) {items : List A} {a : A} (member : a ∈ items)
    (written : Overwrites (draw a) n) :
    Overwrites (fun m => items.foldl (fun m a => draw a m) m) n := by
  induction items with
  | nil => cases member
  | cons b rest ih =>
      rcases List.mem_cons.mp member with rfl | later
      · exact written.before (blind_foldl each rest)
      · exact (ih later).after

theorem Overwrites.changes (written : Overwrites first n) : ∃ m : Mem, first m n ≠ m n := by
  obtain ⟨byte, written⟩ := written
  refine ⟨fun _ => byte + 1, fun same => ?_⟩
  rw [written] at same
  simp at same

end Overwriting

end ByteMemory
