import Mathlib
import PaintKernel.Printf
import PaintKernel.Library.Run

set_option autoImplicit false

/-! `strsep` and `strpbrk`. The index `delim_idx` of `strsep` has no initial value; it is an
argument here. -/

namespace PaintKernel

open MachineInt Transition

def delimLoop (c : UInt8) : List UInt8 → Nat → Option Bool
  | [], _ => none
  | d :: delim, i =>
      if d = 0 then some false
      else if d = c then some true
      else do
        let _ ← int32 (i + 1)
        delimLoop c delim (i + 1)

def delimFrom (c : UInt8) (delim : List UInt8) (delimIdx : Int) : Option Bool :=
  if 0 ≤ delimIdx then delimLoop c (delim.drop delimIdx.toNat) delimIdx.toNat else none

/-- The loops of `strsep` and `strpbrk`: where a character of the string is found, if one is. The
inner index is 0 for every character but the first. -/
def breakLoop (delim : List UInt8) : List UInt8 → Nat → Int → Option (Option Nat)
  | [], _, _ => none
  | c :: str, strIdx, delimIdx =>
      if c = 0 then some none
      else do
        if ← delimFrom c delim delimIdx then return some strIdx
        else
          let _ ← int32 (strIdx + 1)
          breakLoop delim str (strIdx + 1) 0

def strpbrk (s charset : List UInt8) : Option (Option Nat) := breakLoop charset s 0 0

/-- The memory of the string and `*stringp`, an index or NULL. -/
structure SepState where
  memory : List UInt8
  stringp : Option Nat
  deriving DecidableEq

def strsep (delim : List UInt8) (s : SepState) (delimIdx : Int32) :
    Option (Option Nat × SepState) :=
  match s.stringp with
  | none => some (none, s)
  | some origStr => do
      match ← breakLoop delim (s.memory.drop origStr) 0 delimIdx.toInt with
      | some strIdx => return (some origStr,
          ⟨s.memory.set (origStr + strIdx) 0, some (origStr + strIdx + 1)⟩)
      | none => return (some origStr, ⟨s.memory, none⟩)

section Loops

variable {c : UInt8} {delim text : List UInt8}

theorem delimLoop_eq (inside : c ≠ 0) (seg : List UInt8) {i : Nat} (small : i < 2 ^ 31) :
    delimLoop c seg i = (seg.findIdx? fun d => d = 0 ∨ d = c).bind fun j =>
      if i + j < 2 ^ 31 then some (decide (seg[j]? = some c)) else none := by
  induction seg generalizing i with
  | nil => rfl
  | cons d seg ih =>
      rw [List.findIdx?_cons]
      by_cases stops : d = 0 ∨ d = c
      · have here : i + 0 < 2 ^ 31 := small
        rw [delimLoop, if_pos (decide_eq_true stops), Option.bind_some, if_pos here,
          List.getElem?_cons_zero]
        rcases stops with rfl | rfl
        · simp [Ne.symm inside]
        · simp [inside]
      · have goes := not_or.mp stops
        have step : delimLoop c (d :: seg) i = (int32 ((i : Int) + 1)).bind fun _ =>
            delimLoop c seg (i + 1) := by
          rw [delimLoop, if_neg goes.1, if_neg goes.2]
          rfl
        have stays : ¬decide (d = 0 ∨ d = c) = true := by simpa using stops
        rw [step, int32_succ, if_neg stays, Option.bind_map]
        by_cases next : i + 1 < 2 ^ 31
        · rw [if_pos next, Option.bind_some, ih next]
          apply Option.bind_congr
          intro j _
          have position : i + 1 + j = i + (j + 1) := by omega
          rw [Function.comp_apply, position, List.getElem?_cons_succ]
        · rw [if_neg next, Option.bind_none]
          refine (Option.bind_eq_none_iff.mpr fun j _ => ?_).symm
          have large : ¬i + (j + 1) < 2 ^ 31 := by omega
          exact if_neg large

theorem findIdx_delim (inside : c ≠ 0) (terminated : 0 ∉ delim) (rest : List UInt8) :
    (delim ++ 0 :: rest).findIdx? (fun d => d = 0 ∨ d = c) = some (delim.idxOf c) ∧
      ((delim ++ 0 :: rest)[delim.idxOf c]? = some c ↔ c ∈ delim) := by
  induction delim with
  | nil => simp [List.findIdx?_cons, Ne.symm inside]
  | cons d delim ih =>
      have nonzero : d ≠ 0 := (List.ne_of_not_mem_cons terminated).symm
      obtain ⟨first, found⟩ := ih (List.not_mem_of_not_mem_cons terminated)
      by_cases same : d = c
      · subst same
        simp [List.findIdx?_cons]
      · rw [List.cons_append, List.findIdx?_cons, if_neg (by simp [nonzero, same]), first,
          List.idxOf_cons_ne _ same, Option.map_some, List.getElem?_cons_succ, found, List.mem_cons,
            or_iff_right (Ne.symm same)]
        exact ⟨rfl, Iff.rfl⟩

theorem delimFrom_zero (inside : c ≠ 0) (terminated : 0 ∉ delim) (rest : List UInt8) :
    delimFrom c (delim ++ 0 :: rest) 0 = if delim.idxOf c < 2 ^ 31 then some (decide (c ∈ delim))
      else none := by
  obtain ⟨first, found⟩ := findIdx_delim inside terminated rest
  have start : delimFrom c (delim ++ 0 :: rest) 0 = delimLoop c (delim ++ 0 :: rest) 0 :=
    if_pos (Int.le_refl 0)
  rw [start, delimLoop_eq inside _ (Nat.pow_pos (by decide)), first, Option.bind_some, Nat.zero_add]
  simp only [found]

/-- One character of the string. -/
theorem breakLoop_cons (inside : c ≠ 0) (delim str : List UInt8) (k : Nat) (i : Int) :
    breakLoop delim (c :: str) k i = (delimFrom c delim i).bind fun found =>
      if found then some (some k) else (int32 ((k : Int) + 1)).bind fun _ =>
        breakLoop delim str (k + 1) 0 := by
  rw [breakLoop, if_neg inside]
  rfl

def IndicesFit (delim text : List UInt8) (k : Nat) : Prop :=
  k + text.findIdx (fun c => c ∈ delim) < 2 ^ 31 ∧
    ∀ c ∈ text.take (text.findIdx (fun c => c ∈ delim) + 1), delim.idxOf c < 2 ^ 31

theorem breakLoop_zero_iff (terminated : 0 ∉ delim) (drest rest : List UInt8)
    (ends : 0 ∉ text) {k : Nat} (small : k < 2 ^ 31) (found : Option Nat) :
    breakLoop (delim ++ 0 :: drest) (text ++ 0 :: rest) k 0 = some found ↔
      IndicesFit delim text k ∧ found = (text.findIdx? fun c => c ∈ delim).map fun i => k + i := by
  induction text generalizing k with
  | nil =>
      have fits : IndicesFit delim [] k := ⟨small, fun c member => absurd member List.not_mem_nil⟩
      rw [List.nil_append, breakLoop, if_pos rfl, List.findIdx?_nil, Option.map_none,
        Option.some_inj, eq_comm]
      exact (and_iff_right fits).symm
  | cons c text ih =>
      have inside : c ≠ 0 := (List.ne_of_not_mem_cons ends).symm
      rw [List.cons_append, breakLoop_cons inside, delimFrom_zero inside terminated, int32_succ]
      by_cases reached : delim.idxOf c < 2 ^ 31
      · rw [if_pos reached, Option.bind_some]
        by_cases separates : c ∈ delim
        · have first : (c :: text).findIdx (fun c => c ∈ delim) = 0 := by
            simp [List.findIdx_cons, separates]
          have fits : IndicesFit delim (c :: text) k := by
            refine ⟨by rwa [first], ?_⟩
            rw [first]
            simpa using reached
          rw [if_pos (decide_eq_true separates), Option.some_inj, List.findIdx?_cons,
            if_pos (decide_eq_true separates), eq_comm]
          exact (and_iff_right fits).symm
        · have later : (c :: text).findIdx (fun c => c ∈ delim) =
              text.findIdx (fun c => c ∈ delim) + 1 := by
            simp [List.findIdx_cons, separates]
          have stays : ¬decide (c ∈ delim) = true := by simpa using separates
          have shifted : (fun i => k + (i + 1)) = fun i => k + 1 + i := by
            funext i
            omega
          rw [if_neg stays, List.findIdx?_cons, if_neg stays, Option.map_map, IndicesFit, later,
            List.take_succ_cons, List.forall_mem_cons]
          change _ ↔ _ ∧ found = ((text.findIdx? fun c => c ∈ delim).map fun i => k + (i + 1))
          rw [shifted]
          by_cases next : k + 1 < 2 ^ 31
          · rw [if_pos next, Option.bind_some, ih (List.not_mem_of_not_mem_cons ends) next,
              IndicesFit, Nat.add_right_comm k 1, Nat.add_assoc k, and_iff_right reached]
          · rw [if_neg next, Option.bind_none]
            refine iff_of_false (by simp) fun fits => next ?_
            omega
      · rw [if_neg reached, Option.bind_none]
        refine iff_of_false (by simp) fun fits => reached (fits.1.2 c ?_)
        rw [List.take_succ_cons]
        exact List.mem_cons_self

theorem delimFrom_iff (inside : c ≠ 0) (delim : List UInt8) (delimIdx : Int32) (found : Bool) :
    delimFrom c delim delimIdx.toInt = some found ↔
      0 ≤ delimIdx.toInt ∧
        ∃ j, (delim.drop delimIdx.toInt.toNat).findIdx? (fun d => d = 0 ∨ d = c) = some j ∧
        delimIdx.toInt.toNat + j < 2 ^ 31 ∧
          found = decide ((delim.drop delimIdx.toInt.toNat)[j]? = some c) := by
  have below : delimIdx.toInt < 2 ^ 31 := Int32.toInt_lt delimIdx
  have small : delimIdx.toInt.toNat < 2 ^ 31 := by omega
  rw [delimFrom]
  by_cases positive : 0 ≤ delimIdx.toInt
  · rw [if_pos positive, delimLoop_eq inside _ small, Option.bind_eq_some_iff,
      and_iff_right positive]
    apply exists_congr
    intro j
    apply and_congr_right
    intro _
    by_cases fits : delimIdx.toInt.toNat + j < 2 ^ 31
    · rw [if_pos fits, Option.some_inj, and_iff_right fits, eq_comm]
    · rw [if_neg fits]
      exact iff_of_false (by simp) fun holds => fits holds.1
  · rw [if_neg positive]
    exact iff_of_false (by simp) fun holds => positive holds.1

end Loops

section Call

def cutAt (memory : List UInt8) (start : Nat) : Option Nat → SepState
  | some i => ⟨memory.set (start + i) 0, some (start + i + 1)⟩
  | none => ⟨memory, none⟩

theorem strsep_eq (delim memory : List UInt8) (start : Nat) (delimIdx : Int32) :
    strsep delim ⟨memory, some start⟩ delimIdx =
      (breakLoop delim (memory.drop start) 0 delimIdx.toInt).map fun place =>
        (some start, cutAt memory start place) := by
  simp only [strsep]
  cases breakLoop delim (memory.drop start) 0 delimIdx.toInt with
  | none => rfl
  | some place => cases place <;> rfl

theorem cutAt_injective (memory : List UInt8) (start : Nat) :
    Function.Injective (cutAt memory start) := by
  intro place place' same
  have pointers := congrArg SepState.stringp same
  cases place <;> cases place' <;> simp_all [cutAt]

def CutsAtBreak (front rest drest text delim : List UInt8) (delimIdx : Int32) : Prop :=
  ∃ place, strpbrk (text ++ 0 :: rest) (delim ++ 0 :: drest) = some place ∧
    place = text.findIdx? (fun c => c ∈ delim) ∧
    strsep (delim ++ 0 :: drest) ⟨front ++ (text ++ 0 :: rest), some front.length⟩ delimIdx =
      some (some front.length, cutAt (front ++ (text ++ 0 :: rest)) front.length place)

/-- From `delim_idx` on, the first character of the string is found before a terminator exactly if
it is in `delim`. -/
def StartFits (drest text delim : List UInt8) (delimIdx : Int32) : Prop :=
  ∀ c, text.head? = some c → 0 ≤ delimIdx.toInt ∧
    ∃ j, ((delim ++ 0 :: drest).drop delimIdx.toInt.toNat).findIdx? (fun d => d = 0 ∨
      d = c) = some j ∧
      delimIdx.toInt.toNat + j < 2 ^ 31 ∧
      (((delim ++ 0 :: drest).drop delimIdx.toInt.toNat)[j]? = some c ↔ c ∈ delim)

variable {front rest drest text delim : List UInt8} {delimIdx : Int32}

theorem breakLoop_start (terminated : 0 ∉ delim) (ends : 0 ∉ text)
    (fits : IndicesFit delim text 0) :
    breakLoop (delim ++ 0 :: drest) (text ++ 0 :: rest) 0 delimIdx.toInt =
        some (text.findIdx? fun c => c ∈ delim) ↔ StartFits drest text delim delimIdx := by
  cases text with
  | nil =>
      have nothing : StartFits drest [] delim delimIdx := fun c first => by cases first
      exact iff_of_true rfl nothing
  | cons c text =>
      have inside : c ≠ 0 := (List.ne_of_not_mem_cons ends).symm
      let scan := fun found : Bool => if found then some (some 0)
        else (int32 (((0 : Nat) : Int) + 1)).bind fun _ =>
          breakLoop (delim ++ 0 :: drest) (text ++ 0 :: rest) (0 + 1) 0
      have step : ∀ i : Int, breakLoop (delim ++ 0 :: drest) (c :: text ++ 0 :: rest) 0 i =
          (delimFrom c (delim ++ 0 :: drest) i).bind scan := fun i => breakLoop_cons inside _ _ 0 i
      have start : StartFits drest (c :: text) delim delimIdx ↔
          delimFrom c (delim ++ 0 :: drest) delimIdx.toInt = some (decide (c ∈ delim)) := by
        rw [delimFrom_iff inside, StartFits]
        simp only [List.head?_cons, Option.some_inj, forall_eq', decide_eq_decide, iff_comm]
      have right : scan (decide (c ∈ delim)) = some ((c :: text).findIdx? fun c => c ∈ delim) := by
        have zero := (breakLoop_zero_iff terminated drest rest ends (Nat.pow_pos (by decide)) _).mpr
          ⟨fits, rfl⟩
        have first := fits.2 c (by rw [List.take_succ_cons]; exact List.mem_cons_self)
        rw [step, delimFrom_zero inside terminated, if_pos first, Option.bind_some] at zero
        simpa using zero
      -- A wrong answer for the first character cannot be made good by a later one.
      have apart : scan false ≠ some (some 0) := by
        intro same
        have goes : scan false = (int32 (((0 : Nat) : Int) + 1)).bind fun _ =>
            breakLoop (delim ++ 0 :: drest) (text ++ 0 :: rest) (0 + 1) 0 :=
              if_neg Bool.false_ne_true
        rw [goes] at same
        obtain ⟨_, _, later⟩ := Option.bind_eq_some_iff.mp same
        have small : 0 + 1 < 2 ^ 31 := by omega
        obtain ⟨_, place⟩ :=
          (breakLoop_zero_iff terminated drest rest (List.not_mem_of_not_mem_cons ends) small _).mp
          later
        simp [eq_comm] at place
      rw [step, start]
      constructor
      · intro same
        obtain ⟨found, scanned, reached⟩ := Option.bind_eq_some_iff.mp same
        rw [scanned]
        cases found <;> cases expected : decide (c ∈ delim)
        · rfl
        · rw [expected] at right
          exact absurd (reached.trans right.symm) apart
        · rw [expected] at right
          exact absurd (right.trans reached.symm) apart
        · rfl
      · intro scanned
        rw [scanned, Option.bind_some, right]

def CallFits (drest text delim : List UInt8) (delimIdx : Int32) : Prop :=
  IndicesFit delim text 0 ∧ StartFits drest text delim delimIdx

theorem cutsAtBreak_iff (terminated : 0 ∉ delim) (ends : 0 ∉ text) :
    CutsAtBreak front rest drest text delim delimIdx ↔ CallFits drest text delim delimIdx := by
  have back : (text.findIdx? fun c => c ∈ delim).map (fun i => 0 + i) = text.findIdx? fun c =>
      c ∈ delim := by
    simp
  have points : strpbrk (text ++ 0 :: rest) (delim ++ 0 :: drest) =
      some (text.findIdx? fun c => c ∈ delim) ↔
      IndicesFit delim text 0 := by
    rw [strpbrk, breakLoop_zero_iff terminated drest rest ends (Nat.pow_pos (by decide)), back]
    exact and_iff_left rfl
  have cuts : strsep (delim ++ 0 :: drest) ⟨front ++ (text ++ 0 :: rest),
    some front.length⟩ delimIdx =
      some (some front.length,
        cutAt (front ++ (text ++ 0 :: rest)) front.length (text.findIdx? fun c => c ∈ delim)) ↔
      breakLoop (delim ++ 0 :: drest) (text ++ 0 :: rest) 0 delimIdx.toInt =
        some (text.findIdx? fun c => c ∈ delim) := by
    have injective : Function.Injective fun place =>
        (some front.length, cutAt (front ++ (text ++ 0 :: rest)) front.length place) :=
      fun _ _ same => cutAt_injective _ _ (Prod.ext_iff.mp same).2
    rw [strsep_eq, List.drop_left, ← Option.map_some (f := fun place =>
      (some front.length, cutAt (front ++ (text ++ 0 :: rest)) front.length place))]
    exact (Option.map_injective injective).eq_iff
  constructor
  · rintro ⟨place, pointed, rfl, cut⟩
    have fits := points.mp pointed
    exact ⟨fits, (breakLoop_start terminated ends fits).mp (cuts.mp cut)⟩
  · rintro ⟨fits, start⟩
    exact ⟨_, points.mpr fits, rfl, cuts.mpr ((breakLoop_start terminated ends fits).mpr start)⟩

theorem callFits_zero (terminated : 0 ∉ delim) (ends : 0 ∉ text) (fits : IndicesFit delim text 0) :
    CallFits drest text delim 0 := by
  have zero := (breakLoop_zero_iff terminated drest [] ends (Nat.pow_pos (by decide)) _).mpr ⟨fits,
    rfl⟩
  have start : breakLoop (delim ++ 0 :: drest) (text ++ 0 :: []) 0 (0 : Int32).toInt =
      some (text.findIdx? fun c => c ∈ delim) := by simpa using zero
  exact ⟨fits, (breakLoop_start terminated ends fits).mp start⟩

end Call

section Pieces

variable {front rest drest text delim : List UInt8} {delimIdxs : List Int32}

inductive EveryCallFits (drest delim : List UInt8) : List UInt8 → List Int32 → Prop where
  | last {text : List UInt8} {delimIdx : Int32} (whole : ∀ c ∈ text, c ∉ delim)
      (fits : CallFits drest text delim delimIdx) : EveryCallFits drest delim text [delimIdx]
  | cut {piece later : List UInt8} {c : UInt8} {delimIdx : Int32} {delimIdxs : List Int32}
      (whole : ∀ c ∈ piece, c ∉ delim) (separates : c ∈ delim)
      (fits : CallFits drest (piece ++ c :: later) delim delimIdx)
      (next : EveryCallFits drest delim later delimIdxs) :
      EveryCallFits drest delim (piece ++ c :: later) (delimIdx :: delimIdxs)

/-- The calls leave the bytes before the string alone and return pointers to its pieces; the string
is used up. -/
def TakesApart (front rest drest text delim : List UInt8) (delimIdxs : List Int32) : Prop :=
  ∃ (pieces : List (Nat × List UInt8)) (memory : List UInt8),
    answers (strsep (delim ++ 0 :: drest)) delimIdxs ⟨front ++ (text ++ 0 :: rest),
      some front.length⟩ =
      some (pieces.map fun piece => some piece.1, ⟨memory, none⟩) ∧
    front <+: memory ∧
    (∀ piece ∈ pieces, piece.2 ++ [0] <+: memory.drop piece.1) ∧
    pieces.map Prod.snd = text.splitOnP (fun c => c ∈ delim) ∧
    (List.zipWith (· ++ ·) (pieces.map Prod.snd)
      (((text.filter fun c => c ∈ delim).map fun c => [c]) ++ [[]])).flatten =
      text

theorem findIdx_piece {piece later : List UInt8} {c : UInt8} (whole : ∀ c ∈ piece, c ∉ delim)
    (separates : c ∈ delim) :
    (piece ++ c :: later).findIdx? (fun c => c ∈ delim) = some piece.length := by
  rw [List.findIdx?_append, List.findIdx?_eq_none_iff.mpr (by simpa using whole),
    List.findIdx?_cons, if_pos (decide_eq_true separates)]
  simp

theorem cutAt_piece (front piece later rest : List UInt8) (c : UInt8) :
    cutAt (front ++ (piece ++ c :: later ++ 0 :: rest)) front.length (some piece.length) =
      ⟨front ++ piece ++ [0] ++ (later ++ 0 :: rest), some (front ++ piece ++ [0]).length⟩ := by
  have place : front.length + piece.length = (front ++ piece).length := by rw [List.length_append]
  have split : front ++ (piece ++ c :: later ++ 0 :: rest) = front ++ piece ++
      c :: (later ++ 0 :: rest) := by simp
  rw [cutAt, place, split, List.set_append_right _ _ (Nat.le_refl _), Nat.sub_self,
    List.set_cons_zero]
  simp [Nat.add_assoc]

theorem takesApart (terminated : 0 ∉ delim) (ends : 0 ∉ text)
    (fits : EveryCallFits drest delim text delimIdxs) (front : List UInt8) :
    TakesApart front rest drest text delim delimIdxs := by
  induction fits generalizing front with
  | @last text delimIdx whole fits =>
      have call : CutsAtBreak front rest drest text delim delimIdx :=
        (cutsAtBreak_iff terminated ends).mpr fits
      obtain ⟨place, _, here, cut⟩ := call
      have nowhere : text.findIdx? (fun c => c ∈ delim) = none := by simpa using whole
      rw [here, nowhere, cutAt] at cut
      refine ⟨[(front.length, text)], front ++ (text ++ 0 :: rest), ?_,
        List.prefix_append _ _, ?_, ?_⟩
      · rw [answers, cut]
        rfl
      · intro piece member
        rw [List.mem_singleton.mp member, List.drop_left]
        exact ⟨rest, by simp⟩
      · have parts : [(front.length, text)].map Prod.snd = text.splitOnP (fun c => c ∈ delim) :=
          (List.splitOnP_eq_singleton (by simpa using whole)).symm
        rw [parts]
        exact ⟨rfl, List.splitOnP_spec text⟩
  | @cut piece later c delimIdx delimIdxs whole separates fits next ih =>
      have call : CutsAtBreak front rest drest (piece ++ c :: later) delim delimIdx :=
        (cutsAtBreak_iff terminated ends).mpr fits
      obtain ⟨place, _, here, cut⟩ := call
      obtain ⟨pieces, memory, answered, kept, inside, split, _⟩ :=
        ih (fun member => ends (by simp [member])) (front ++ piece ++ [0])
      rw [here, findIdx_piece whole separates, cutAt_piece] at cut
      refine ⟨(front.length, piece) :: pieces, memory, ?_, ?_, ?_, ?_⟩
      · rw [answers, cut, Option.bind_eq_bind, Option.bind_some]
        simp only [answered]
        rfl
      · exact ((List.prefix_append front piece).trans (List.prefix_append _ [0])).trans kept
      · rw [List.forall_mem_cons]
        refine ⟨?_, inside⟩
        obtain ⟨after, rfl⟩ := kept
        rw [List.append_assoc, List.append_assoc, List.drop_left]
        exact ⟨after, by simp⟩
      · have parts : ((front.length, piece) :: pieces).map Prod.snd =
            (piece ++ c :: later).splitOnP (fun c => c ∈ delim) := by
          rw [List.map_cons, split,
            List.splitOnP_append_cons_of_forall_mem (by simpa using whole) c
              (decide_eq_true separates)]
        rw [parts]
        exact ⟨rfl, List.splitOnP_spec _⟩

/-- A call cuts at the place that `strpbrk` gives exactly if its indices fit and the initial value
of `delim_idx` is one that does not matter; a string that such calls take apart comes back when its
pieces are joined with the characters removed. -/
theorem strsep_cuts (front rest drest : List UInt8) (s delim : CString) :
    (∀ delimIdx : Int32,
      CutsAtBreak front rest drest s.bytes delim.bytes delimIdx ↔
        CallFits drest s.bytes delim.bytes delimIdx) ∧
    (∀ delimIdxs : List Int32, EveryCallFits drest delim.bytes s.bytes delimIdxs →
      TakesApart front rest drest s.bytes delim.bytes delimIdxs) :=
  ⟨fun _ => cutsAtBreak_iff delim.terminated s.terminated,
    fun _ fits => takesApart delim.terminated s.terminated fits front⟩

theorem strsep_takes_pair_apart : EveryCallFits [] [44] [97, 44, 98] [0, 0] ∧
    TakesApart [] [] [] [97, 44, 98] [44] [0, 0] := by
  have indices : ∀ text : List UInt8, text.length < 4 → IndicesFit [44] text 0 := by
    intro text short
    have found : text.findIdx (fun c => c ∈ ([44] : List UInt8)) ≤ text.length :=
      List.findIdx_le_length
    refine ⟨by omega, fun c _ => ?_⟩
    have within : ([44] : List UInt8).idxOf c ≤ 1 := List.idxOf_le_length
    exact within.trans_lt (by decide)
  have second : CallFits [] [98] [44] 0 :=
    callFits_zero (by decide) (by decide) (indices _ (by decide))
  have first : CallFits [] [97, 44, 98] [44] 0 :=
    callFits_zero (by decide) (by decide) (indices _ (by decide))
  have fits : EveryCallFits [] [44] ([97] ++ 44 :: [98]) [0, 0] :=
    .cut (by simp) (by simp) first (.last (by simp) second)
  exact ⟨fits, (strsep_cuts [] [] [] ⟨[97, 44, 98], by decide⟩ ⟨[44], by decide⟩).2 [0, 0] fits⟩

/-- With 1 left in `delim_idx` the first character is not compared. -/
theorem strsep_misses_first : strpbrk [44, 98, 0] [44, 0] = some (some 0) ∧
    strsep [44, 0] ⟨[44, 98, 0], some 0⟩ 1 = some (some 0, ⟨[44, 98, 0], none⟩) ∧
    ¬CutsAtBreak [] [] [] [44, 98] [44] 1 := by
  have points : strpbrk [44, 98, 0] [44, 0] = some (some 0) := by decide
  have misses : strsep [44, 0] ⟨[44, 98, 0], some 0⟩ 1 = some (some 0, ⟨[44, 98, 0], none⟩) := by
    decide
  refine ⟨points, misses, ?_⟩
  rintro ⟨place, pointed, _, cut⟩
  obtain rfl : place = some 0 := Option.some.inj (pointed.symm.trans points)
  exact absurd (misses.symm.trans cut) (by decide)

end Pieces

end PaintKernel
