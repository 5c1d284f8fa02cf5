import Mathlib
import PaintKernel.Terminal
import PaintKernel.Library.MachineInt
import PaintKernel.Library.Output

set_option autoImplicit false

/-! `kprintf` of the kernel and `printf` of the standard library, which prints through `write`,
`sys_write` and `kprintf`. An output is the characters sent to the terminal, in order; it is
undefined where an `int` overflows or an array is left. -/

namespace PaintKernel

open MachineInt Output Transition

structure CString where
  bytes : List UInt8
  terminated : 0 ∉ bytes
  deriving DecidableEq, Repr

def CString.buffer (s : CString) : List UInt8 := s.bytes ++ [0]

def byte (c : Char) : UInt8 := UInt8.ofNat c.toNat

def ascii (text : List Char) : List UInt8 := text.map byte

/-- `uint32_t length` counts the bytes before the terminator. -/
def strlen (str : List UInt8) : Nat :=
  (str.takeWhile (· ≠ 0)).foldl (fun length _ => (length + 1) % 2 ^ 32) 0

/-- The counter of `term_write` is an `int`. -/
def termWrite (arr : List UInt8) (s : Nat) : Option (List UInt8) :=
  (List.range s).foldlM (fun printed (i : Nat) => do
    let c ← arr[i]?
    let _ ← int32 (i + 1)
    return printed ++ [c]) []

inductive Arg where
  | int (n : Int32)
  | str (s : CString)
  | num (value : UInt64)
  | ptr (value : UInt64)

def promote (c : UInt8) : Int32 := c.toInt8.toInt32
def toChar (n : Int32) : UInt8 := n.toUInt32.toUInt8

/-- The number that a `char` is in arithmetic; `char` is signed. -/
def charInt (c : UInt8) : Int := c.toInt8.toInt

theorem charInt_eq (c : UInt8) :
    charInt c = if c.toNat < 128 then (c.toNat : Int) else (c.toNat : Int) - 256 := by
  have value : charInt c = c.toBitVec.toInt := rfl
  rw [value, BitVec.toInt_eq_toNat_cond, UInt8.toNat_toBitVec]
  split_ifs <;> first | rfl | omega

inductive Piece where
  | plain (c : UInt8)
  | percent
  | char (c : UInt8)
  | str (s : CString)
  | dec (value : UInt64)
  | hex (value : UInt64)
  | ptr (value : UInt64)
  | unsupported

def conversion (spec : UInt8) (args : List Arg) : Option (Piece × List Arg) :=
  if spec = byte '%' then some (.percent, args)
  else if spec = byte 'c' then
    match args with
    | .int n :: args => some (.char (toChar n), args)
    | _ => none
  else if spec = byte 's' then
    match args with
    | .str s :: args => some (.str s, args)
    | _ => none
  else if spec = byte 'd' then
    match args with
    | .num value :: args => some (.dec value, args)
    | _ => none
  else if spec = byte 'x' then
    match args with
    | .num value :: args => some (.hex value, args)
    | _ => none
  else if spec = byte 'p' then
    match args with
    | .ptr value :: args => some (.ptr value, args)
    | _ => none
  else some (.unsupported, args)

/-- The loop of `kprintf` and of `printf` over a format, for the calls that print a piece. A `%` at
the end takes the loop past the terminator. -/
def formatLoop (print : Piece → Option (List UInt8)) : List UInt8 → List Arg → Option (List UInt8)
  | [], _ => some []
  | c :: rest, args =>
      if c = byte '%' then
        match rest with
        | [] => none
        | spec :: rest => do
            let (piece, args) ← conversion spec args
            andThen (print piece) (formatLoop print rest args)
      else andThen (print (.plain c)) (formatLoop print rest args)

def digitHelper (base : Nat) (proper : 1 < base) (digit : Nat → Option (List UInt8)) (value : Nat) :
    Option (List UInt8) :=
  if value ≠ 0 then andThen (digitHelper base proper digit (value / base)) (digit (value % base))
    else some []
termination_by value
decreasing_by exact Nat.div_lt_self (by omega) proper

def hexTable : List UInt8 :=
  ascii ['0', '1', '2', '3', '4', '5', '6', '7', '8', '9', 'a', 'b', 'c', 'd', 'e', 'f']

def notSupported : CString :=
  ⟨ascii ['<', 'n', 'o', 't', ' ', 's', 'u', 'p', 'p', 'o', 'r', 't', 'e', 'd', '>'], by decide⟩

section Kernel

def kprintC (c : UInt8) : Option (List UInt8) := termWrite [c] 1

def kprintS (str : CString) : Option (List UInt8) := termWrite str.buffer (strlen str.buffer)

def kprintDHelper : Nat → Option (List UInt8) :=
  digitHelper 10 (by decide) fun digit => kprintC (UInt8.ofNat (digit + 48))

def kprintD (value : UInt64) : Option (List UInt8) :=
  if value ≠ 0 then kprintDHelper value.toNat else kprintC (byte '0')

def kprintXHelper : Nat → Option (List UInt8) :=
  digitHelper 16 (by decide) fun digit => do kprintC (← hexTable[digit]?)

def kprintX (value : UInt64) : Option (List UInt8) :=
  if value ≠ 0 then kprintXHelper value.toNat else kprintC (byte '0')

def kprintP (ptr : UInt64) : Option (List UInt8) :=
  andThen (termWrite (ascii ['0', 'x'] ++ [0]) 2) (kprintX ptr)

def kprintPiece : Piece → Option (List UInt8)
  | .plain c => kprintC c
  | .percent => kprintC (byte '%')
  | .char c => kprintC c
  | .str s => kprintS s
  | .dec value => kprintD value
  | .hex value => kprintX value
  | .ptr value => kprintP value
  | .unsupported => kprintS notSupported

def kprintf (format : CString) (args : List Arg) : Option (List UInt8) :=
  formatLoop kprintPiece format.bytes args

def charFormat : CString := ⟨ascii ['%', 'c'], by decide⟩

def sysWrite (fd : Nat) (buffer : List UInt8) (size : Nat) : Option (Int × List UInt8) :=
  if fd ≠ 1 ∧ fd ≠ 2 then some (-1, [])
  else
    (List.range size).foldlM (fun (count, printed) i => do
      let c ← buffer[i]?
      let text ← kprintf charFormat [.int (promote c)]
      let count ← int32 (count + 1)
      return (count, printed ++ text)) (0, [])

end Kernel

section User

/-- `write` makes the system call, whose handler hands its three arguments to `sys_write`. -/
def write (filedes : Nat) (buf : List UInt8) (nbyte : Nat) : Option (List UInt8) :=
  (sysWrite filedes buf nbyte).map Prod.snd

def stdout : Nat := 1

def wordBytes (value : Nat) : List UInt8 :=
  (List.range 8).map fun i => UInt8.ofNat (value / 256 ^ i)

def printDHelper : Nat → Option (List UInt8) :=
  digitHelper 10 (by decide) fun digit => write stdout (wordBytes (digit + 48)) 1

def printXHelper : Nat → Option (List UInt8) :=
  digitHelper 16 (by decide) fun digit => write stdout (hexTable.drop digit) 1

def printPiece : Piece → Option (List UInt8)
  | .plain c => write stdout [c] 1
  | .percent => write stdout (ascii ['%']) 1
  | .char c => write stdout [c] 1
  | .str s => write stdout s.buffer (strlen s.buffer)
  | .dec value => if value ≠ 0 then printDHelper value.toNat
      else write stdout (ascii ['0'] ++ [0]) 1
  | .hex value => if value ≠ 0 then printXHelper value.toNat
      else write stdout (ascii ['0'] ++ [0]) 1
  | .ptr value =>
      andThen (write stdout (ascii ['0', 'x'] ++ [0]) 2)
        (if value ≠ 0 then printXHelper value.toNat else write stdout (ascii ['0'] ++ [0]) 1)
  | .unsupported => write stdout notSupported.buffer 15

def printf (format : CString) (args : List Arg) : Option (List UInt8) :=
  formatLoop printPiece format.bytes args

end User

def Piece.text : Piece → List UInt8
  | .plain c => [c]
  | .percent => ascii ['%']
  | .char c => [c]
  | .str s => s.bytes
  | .dec value => digitText 10 value.toNat
  | .hex value => digitText 16 value.toNat
  | .ptr value => ascii ['0', 'x'] ++ digitText 16 value.toNat
  | .unsupported => ascii ['<', 'n', 'o', 't', ' ', 's', 'u', 'p', 'p', 'o', 'r', 't',
      'e', 'd', '>']

/-- The pieces of a format with its arguments; `none` is a `%` at the end or an argument of another
type. -/
def pieces : List UInt8 → List Arg → Option (List Piece)
  | [], _ => some []
  | c :: rest, args =>
      if c = byte '%' then
        match rest with
        | [] => none
        | spec :: rest => do
            let (piece, args) ← conversion spec args
            return piece :: (← pieces rest args)
      else do return .plain c :: (← pieces rest args)

section Writes

def Writes (write : List UInt8 → Nat → Option (List UInt8)) : Prop :=
  ∀ buffer size, size ≤ buffer.length →
    write buffer size = if size < 2 ^ 31 then some (buffer.take size) else none

theorem termWrite_writes : Writes termWrite := by
  intro buffer size inside
  refine foldlM_limited (fun i => buffer.take i) (by decide) (fun i bound => ?_)
  have here : buffer[i]? = some (buffer.get ⟨i, by omega⟩) := List.getElem?_eq_getElem _
  rw [here, int32_succ, List.take_add_one, here]
  split_ifs <;> rfl

theorem kprintC_eq (c : UInt8) : kprintC c = some [c] := termWrite_writes [c] 1 (Nat.le_refl 1)

theorem toChar_promote (c : UInt8) : toChar (promote c) = c := by
  have bits : ∀ v : BitVec 8, ((v.signExtend 32).setWidth 8) = v := by decide
  exact UInt8.toBitVec_inj.mp (bits c.toBitVec)

theorem kprintf_char (c : UInt8) : kprintf charFormat [.int (promote c)] = some [c] := by
  have piece : conversion (byte 'c') [.int (promote c)] = some (.char c, []) := by
    rw [conversion, if_neg (by decide), if_pos rfl, toChar_promote]
  simp only [kprintf, charFormat, ascii, List.map_cons, List.map_nil, formatLoop, if_true, piece]
  simp [kprintPiece, kprintC_eq, andThen_some]

theorem write_writes : Writes (write stdout) := by
  intro buffer size inside
  have counted : sysWrite stdout buffer size =
      if size < 2 ^ 31 then some ((size : Int), buffer.take size) else none := by
    refine foldlM_limited (fun i => ((i : Int), buffer.take i)) (by decide) (fun i bound => ?_)
    have here : buffer[i]? = some (buffer.get ⟨i, by omega⟩) := List.getElem?_eq_getElem _
    simp only [here, Option.bind_eq_bind, Option.bind_some, kprintf_char, int32_succ,
      List.take_add_one]
    split_ifs <;> rfl
  rw [write, counted]
  split_ifs <;> rfl

end Writes

def Piece.Short : Piece → Prop
  | .str s => s.bytes.length < 2 ^ 31
  | _ => True

section Pieces

variable {write : List UInt8 → Nat → Option (List UInt8)}

theorem Writes.all (writes : Writes write) {buffer : List UInt8} (small : buffer.length < 2 ^ 31) :
    write buffer buffer.length = some buffer := by
  rw [writes buffer _ (Nat.le_refl _), if_pos small, List.take_length]

theorem strlen_append {text : List UInt8} (terminated : 0 ∉ text) (rest : List UInt8) :
    strlen (text ++ 0 :: rest) = text.length % 2 ^ 32 := by
  have front : (text ++ 0 :: rest).takeWhile (· ≠ 0) = text := by
    have nonzero : ∀ b ∈ text, decide (b ≠ 0) = true := by
      intro b member
      exact decide_eq_true fun zero => terminated (zero ▸ member)
    rw [List.takeWhile_append_of_pos nonzero]
    simp
  have counts : ∀ (bytes : List UInt8) (n : Nat),
      bytes.foldl (fun length _ => (length + 1) % 2 ^ 32) (n % 2 ^ 32) =
        (n + bytes.length) % 2 ^ 32 := by
    intro bytes
    induction bytes with
    | nil => intro n; rfl
    | cons b rest ih =>
        intro n
        rw [List.foldl_cons, Nat.mod_add_mod, ih, List.length_cons]
        congr 1
        omega
  rw [strlen, front]
  simpa using counts text 0

theorem strlen_eq (s : CString) : strlen s.buffer = s.bytes.length % 2 ^ 32 :=
  strlen_append s.terminated []

theorem Writes.string (writes : Writes write) (s : CString) :
    write s.buffer (strlen s.buffer) =
      if s.bytes.length % 2 ^ 32 < 2 ^ 31 then some (s.bytes.take (s.bytes.length % 2 ^ 32))
        else none := by
  have inside : s.bytes.length % 2 ^ 32 ≤ s.bytes.length := Nat.mod_le _ _
  have room : s.bytes.length % 2 ^ 32 ≤ s.buffer.length := by
    rw [CString.buffer, List.length_append]
    omega
  rw [strlen_eq, writes s.buffer _ room, CString.buffer, List.take_append_of_le_length inside]

theorem Writes.short (writes : Writes write) {s : CString} (short : s.bytes.length < 2 ^ 31) :
    write s.buffer (strlen s.buffer) = some s.bytes := by
  rw [writes.string, Nat.mod_eq_of_lt (by omega), if_pos short, List.take_length]

theorem digitHelper_eq {base : Nat} (proper : 1 < base) {digit : Nat → Option (List UInt8)}
    (prints : ∀ d < base, digit d = some [UInt8.ofNat d.digitChar.toNat]) (value : Nat) :
    digitHelper base proper digit value =
      some (if value = 0 then [] else digitText base value) := by
  induction value using Nat.strong_induction_on with
  | _ value ih =>
      rw [digitHelper]
      by_cases zero : value = 0
      · simp [zero]
      · rw [if_pos zero, if_neg zero, ih _ (Nat.div_lt_self (Nat.pos_of_ne_zero zero) proper),
          prints _ (Nat.mod_lt _ (by omega)), andThen_some, digitText_eq proper value]
        simp only [Nat.div_eq_zero_iff]
        congr 2
        by_cases small : value < base
        · rw [if_pos (Or.inr small), if_pos small]
        · rw [if_neg (by omega), if_neg small]

theorem digit_char {d : Nat}
    (small : d < 10) : UInt8.ofNat (d + 48) = UInt8.ofNat d.digitChar.toNat := by
  revert d
  decide

theorem hexTable_get {d : Nat} (small : d < 16) :
    hexTable[d]? = some (UInt8.ofNat d.digitChar.toNat) := by
  revert d
  decide

theorem digitText_zero (base : Nat) : digitText base 0 = [byte '0'] := by
  rw [digitText, Nat.toDigits_zero]
  rfl

structure PrintsPieces (print : Piece → Option (List UInt8)) : Prop where
  exact : ∀ p : Piece, p.Short → print p = some p.text
  string : ∀ s : CString, print (.str s) =
    if s.bytes.length % 2 ^ 32 < 2 ^ 31 then some (s.bytes.take (s.bytes.length % 2 ^ 32)) else none

/-- The digits of a number, or the `0` that the helpers leave out. -/
theorem number_eq {base : Nat} (proper : 1 < base) {digit : Nat → Option (List UInt8)}
    (prints : ∀ d < base, digit d = some [UInt8.ofNat d.digitChar.toNat])
    {zero : Option (List UInt8)} (zeroed : zero = some [byte '0']) (value : UInt64) :
    (if value ≠ 0 then digitHelper base proper digit value.toNat else zero) =
      some (digitText base value.toNat) := by
  by_cases none' : value = 0
  · rw [if_neg (not_not.mpr none'), zeroed, none']
    exact congrArg some (digitText_zero base).symm
  · have positive : value.toNat ≠ 0 := fun same => none' (UInt64.toNat_inj.mp same)
    rw [if_pos none', digitHelper_eq proper prints, if_neg positive]

theorem kprintX_eq (value : UInt64) : kprintX value = some (digitText 16 value.toNat) := by
  refine number_eq (by decide) (fun d small => ?_) (kprintC_eq _) value
  rw [hexTable_get small]
  exact kprintC_eq _

theorem kprintPiece_prints : PrintsPieces kprintPiece where
  string := termWrite_writes.string
  exact := by
    intro p short
    cases p with
    | plain c => exact kprintC_eq c
    | percent => exact kprintC_eq _
    | char c => exact kprintC_eq c
    | str s => exact termWrite_writes.short short
    | dec value =>
        refine number_eq (by decide) (fun d small => ?_) (kprintC_eq _) value
        rw [digit_char small]
        exact kprintC_eq _
    | hex value => exact kprintX_eq value
    | ptr value =>
        have mark : termWrite (ascii ['0', 'x'] ++ [0]) 2 = some (ascii ['0', 'x']) :=
          termWrite_writes _ 2 (by decide)
        rw [kprintPiece, kprintP, mark, kprintX_eq, andThen_some, Piece.text]
    | unsupported => exact termWrite_writes.short (s := notSupported) (by decide)

theorem printPiece_prints : PrintsPieces printPiece where
  string := write_writes.string
  exact := by
    have one : ∀ c : UInt8, write stdout [c] 1 = some [c] :=
      fun c => write_writes [c] 1 (Nat.le_refl 1)
    have zero : write stdout (ascii ['0'] ++ [0]) 1 = some [byte '0'] :=
      write_writes _ 1 (by decide)
    have hexDigits : ∀ value : UInt64, (if value ≠ 0 then printXHelper value.toNat
        else write stdout (ascii ['0'] ++ [0]) 1) = some (digitText 16 value.toNat) := by
      intro value
      refine number_eq (by decide) (fun d small => ?_) zero value
      have first : hexTable.drop d = hexTable.get ⟨d, small⟩ :: hexTable.drop (d + 1) :=
        List.drop_eq_getElem_cons small
      have digit : hexTable.get ⟨d, small⟩ = UInt8.ofNat d.digitChar.toNat :=
        Option.some.inj ((List.getElem?_eq_getElem small).symm.trans (hexTable_get small))
      rw [first, digit]
      exact write_writes _ 1 (by simp)
    intro p short
    cases p with
    | plain c => exact one c
    | percent => exact one _
    | char c => exact one c
    | str s => exact write_writes.short short
    | dec value =>
        refine number_eq (by decide) (fun d small => ?_) zero value
        have first : wordBytes (d + 48) = UInt8.ofNat (d + 48) :: (wordBytes (d + 48)).tail := by
          simp [wordBytes, List.range_succ_eq_map]
        rw [first, ← digit_char small]
        exact write_writes _ 1 (by simp)
    | hex value => exact hexDigits value
    | ptr value =>
        have mark : write stdout (ascii ['0', 'x'] ++ [0]) 2 = some (ascii ['0', 'x']) :=
          write_writes _ 2 (by decide)
        rw [printPiece, mark, hexDigits, andThen_some, Piece.text]
    | unsupported => exact write_writes _ 15 (by decide)

theorem PrintsPieces.concat_iff {print : Piece → Option (List UInt8)} (prints : PrintsPieces print)
    (ps : List Piece) :
    concat (ps.map print) = some (ps.flatMap Piece.text) ↔ ∀ p ∈ ps, p.Short := by
  have correct : ∀ p, print p = some p.text ↔ p.Short := by
    intro p
    refine ⟨fun printed => ?_, prints.exact p⟩
    cases p with
    | str s =>
        rw [prints.string, Piece.text] at printed
        split_ifs at printed with counted
        have length := congrArg List.length (Option.some.inj printed)
        rw [List.length_take] at length
        have inside := Nat.mod_le s.bytes.length (2 ^ 32)
        show s.bytes.length < 2 ^ 31
        omega
    | _ => trivial
  have bounded : ∀ p out, print p = some out → out.length ≤ p.text.length := by
    intro p out printed
    by_cases short : p.Short
    · rw [prints.exact p short] at printed
      exact (congrArg List.length (Option.some.inj printed)).ge
    · cases p with
      | str s =>
          rw [prints.string] at printed
          split_ifs at printed
          rw [← Option.some.inj printed]
          exact List.length_take_le' _ _
      | _ => exact absurd trivial short
  rw [concat_eq_iff bounded]
  simp only [correct]

theorem formatLoop_pieces {print : Piece → Option (List UInt8)} {format : List UInt8}
    {args : List Arg} {ps : List Piece} (parsed : pieces format args = some ps) :
    formatLoop print format args = concat (ps.map print) := by
  induction format, args using pieces.induct generalizing ps with
  | case1 args =>
      cases parsed
      rfl
  | case2 args => simp [pieces] at parsed
  | case3 args spec rest ih =>
      simp only [pieces, if_true, Option.bind_eq_bind, Option.bind_eq_some_iff] at parsed
      rcases parsed with ⟨⟨piece, args'⟩, converted, ⟨later, parsed', last⟩⟩
      cases last
      simp only [formatLoop, if_true, converted, Option.bind_eq_bind, Option.bind_some]
      rw [ih args' parsed', List.map_cons, concat]
  | case4 c rest args plain ih =>
      rw [pieces.eq_def] at parsed
      simp only [if_neg plain, Option.bind_eq_bind, Option.bind_eq_some_iff] at parsed
      rcases parsed with ⟨later, parsed', last⟩
      cases last
      rw [formatLoop.eq_def]
      simp only [if_neg plain, List.map_cons, concat, ih parsed']

/-- `printf` and `kprintf` both print the format with its arguments exactly when `int` can count
every string argument. -/
theorem printf_kprintf_iff {format : CString} {args : List Arg} {ps : List Piece}
    (parsed : pieces format.bytes args = some ps) :
    (kprintf format args = some (ps.flatMap Piece.text) ∧
      printf format args = kprintf format args) ↔
      ∀ s, Piece.str s ∈ ps → s.bytes.length < 2 ^ 31 := by
  have strings : (∀ s, Piece.str s ∈ ps → s.bytes.length < 2 ^ 31) ↔ ∀ p ∈ ps, p.Short := by
    refine ⟨fun short p member => ?_, fun short s member => short _ member⟩
    cases p with
    | str s => exact short s member
    | _ => trivial
  rw [strings, kprintf, printf, formatLoop_pieces parsed, formatLoop_pieces parsed]
  constructor
  · rintro ⟨printed, -⟩
    exact (kprintPiece_prints.concat_iff ps).mp printed
  · intro short
    have kernel := (kprintPiece_prints.concat_iff ps).mpr short
    exact ⟨kernel, ((printPiece_prints.concat_iff ps).mpr short).trans kernel.symm⟩

end Pieces

theorem percent_printed :
    (kprintf ⟨ascii ['%', 'd', '%', '%'], by decide⟩ [.num 42] =
        some ([.dec 42, .percent].flatMap Piece.text) ∧
      printf ⟨ascii ['%', 'd', '%', '%'], by decide⟩ [.num 42] =
        kprintf ⟨ascii ['%', 'd', '%', '%'], by decide⟩ [.num 42]) ↔
      ∀ s, Piece.str s ∈ [Piece.dec 42, .percent] → s.bytes.length < 2 ^ 31 :=
  printf_kprintf_iff rfl

def repeated (n : Nat) : CString := ⟨List.replicate n (byte 'a'), fun member => by
  cases List.eq_of_mem_replicate member⟩

def stringFormat : CString := ⟨ascii ['%', 's'], by decide⟩

theorem long_string_lost :
    pieces stringFormat.bytes [.str (repeated (2 ^ 32))] = some [.str (repeated (2 ^ 32))] ∧
      kprintf stringFormat [.str (repeated (2 ^ 32))] = some [] ∧
      printf stringFormat [.str (repeated (2 ^ 32))] = some [] ∧
      (Piece.str (repeated (2 ^ 32))).text ≠ [] := by
  have parsed : ∀ s, pieces stringFormat.bytes [.str s] = some [.str s] := fun _ => rfl
  have length : (repeated (2 ^ 32)).bytes.length = 2 ^ 32 := List.length_replicate
  have lost : ∀ {print : Piece → Option (List UInt8)}, PrintsPieces print →
      concat ([.str (repeated (2 ^ 32))].map print) = some [] := by
    intro print prints
    rw [List.map_singleton, concat, prints.string, length]
    simp [concat, andThen_some]
  refine ⟨parsed _, ?_, ?_, ?_⟩
  · rw [kprintf, formatLoop_pieces (parsed _), lost kprintPiece_prints]
  · rw [printf, formatLoop_pieces (parsed _), lost printPiece_prints]
  · intro empty
    have none' := congrArg List.length empty
    rw [Piece.text, length] at none'
    simp at none'

end PaintKernel
