import Mathlib

set_option autoImplicit false

/-! Text printed piece by piece, where a piece may be undefined. -/

namespace Output

variable {α β : Type}

def andThen (first second : Option (List α)) : Option (List α) := do
  return (← first) ++ (← second)

def concat : List (Option (List α)) → Option (List α)
  | [] => some []
  | o :: rest => andThen o (concat rest)

theorem andThen_some (a b : List α) : andThen (some a) (some b) = some (a ++ b) := rfl

theorem andThen_nil (a : Option (List α)) : andThen a (some []) = a := by cases a <;> simp [andThen]

theorem nil_andThen (a : Option (List α)) : andThen (some []) a = a := by cases a <;> rfl

theorem andThen_assoc (a b c : Option (List α)) :
    andThen (andThen a b) c = andThen a (andThen b c) := by
  cases a <;> cases b <;> cases c <;> simp [andThen]

theorem andThen_eq_some {first second : Option (List α)} {text : List α}
    (printed : andThen first second = some text) :
    ∃ a b, first = some a ∧ second = some b ∧ a ++ b = text := by
  simpa [andThen, Option.bind_eq_some_iff] using printed

section Pieces

variable {print : β → Option (List α)} {text : β → List α}

theorem concat_length (short : ∀ p out, print p = some out → out.length ≤ (text p).length)
    {pieces : List β} {out : List α} (printed : concat (pieces.map print) = some out) :
    out.length ≤ (pieces.flatMap text).length := by
  induction pieces generalizing out with
  | nil =>
      cases printed
      exact Nat.le_refl _
  | cons p rest ih =>
      rcases andThen_eq_some printed with ⟨a, b, first, second, rfl⟩
      have head := short p a first
      have tail := ih second
      rw [List.length_append, List.flatMap_cons, List.length_append]
      omega

/-- The whole text comes out exactly when every piece prints its own. -/
theorem concat_eq_iff (short : ∀ p out, print p = some out → out.length ≤ (text p).length)
    (pieces : List β) :
    concat (pieces.map print) = some (pieces.flatMap text) ↔
      ∀ p ∈ pieces, print p = some (text p) := by
  induction pieces with
  | nil => simp [concat]
  | cons p rest ih =>
      rw [List.forall_mem_cons, ← ih]
      constructor
      · intro printed
        rcases andThen_eq_some printed with ⟨a, b, first, second, whole⟩
        have head := short p a first
        have tail := concat_length short second
        rw [List.flatMap_cons] at whole
        have lengths := congrArg List.length whole
        rw [List.length_append, List.length_append] at lengths
        rcases List.append_inj whole (by omega) with ⟨rfl, rfl⟩
        exact ⟨first, second⟩
      · rintro ⟨first, second⟩
        rw [List.map_cons, concat, first, second, andThen_some, List.flatMap_cons]

end Pieces

section Digits

def digitText (base n : Nat) : List UInt8 := (Nat.toDigits base n).map fun c => UInt8.ofNat c.toNat

theorem digitText_eq {base : Nat} (proper : 1 < base) (n : Nat) :
    digitText base n =
      (if n < base then [] else digitText base (n / base)) ++
        [UInt8.ofNat (n % base).digitChar.toNat] := by
  unfold digitText
  rw [Nat.toDigits_eq_if proper]
  split_ifs with small
  · simp [Nat.mod_eq_of_lt small]
  · simp

end Digits

end Output
