import Mathlib
import PaintKernel.Getline
import PaintKernel.Gexec

set_option autoImplicit false

/-! The shell: the line that is typed names the program that runs. The kernel is one with a
terminal: without `term_init`, which the boot never calls, the first character written faults. -/

namespace PaintKernel

open LineEditing

/-- `write` of the standard library, where the terminal takes the text. -/
def System.write (input : Input) (s : System) (fildes buf nbyte : UInt64) :
    Option (System × UInt64) :=
  match s.syscallHandler input 1 fildes buf nbyte 0 0 0 with
  | some (s, .returns rax) => some (s, intReturn rax)
  | _ => none

structure ShellText where
  buffer : UInt64
  prompt : UInt64
  newline : UInt64

def invalidCommand : CString := ⟨ascii "Invalid command\n".toList, by decide⟩

/-- What the shell does with a line in its buffer, and the size that it starts the next round from;
there is no next round if another program runs. -/
def System.shellExec (input : Input) (p : ShellText) (s : System) (size : UInt64) :
    Option (System × Option UInt64) := do
  match ← s.syscallHandler input 3 p.buffer 0 0 0 0 0 with
  | (s, .enters) => return (s, none)
  | (s, .returns rax) =>
      let text ← if intReturn rax = -1 then printf invalidCommand [] else some []
      match ← (s.print text).syscallHandler input 4 0 0 0 0 0 0 with
      | (s, .enters) => return (s, none)
      | (s, .returns _) => return (s, some size)

/-- One round of `_start` in the shell, on a kernel with a terminal. -/
def System.shellRound (input : Input) (p : ShellText) (s : System) (size : UInt64) :
    Option (System × Option UInt64) := do
  let (s, _) ← s.write input 1 p.prompt 2
  let (s, size, _) ← s.getline input p.buffer size 0
  let k ← s.kernel.storeVirt (p.buffer + (size - 1)).toNat 0
  let (s, _) ← { s with kernel := k : System }.write input 1 p.buffer size
  let (s, _) ← s.write input 1 p.newline 1
  s.shellExec input p size

def UserSpace.Holds (user : UserSpace) (address : Nat) (bytes : List UInt8) : Prop :=
  ∀ i < bytes.length, address + i < 2 ^ 47 ∧ user.byteAt (address + i) = bytes[i]?

structure ShellText.Literal (p : ShellText) (user : UserSpace) (size : Nat) (address : UInt64)
    (bytes : List UInt8) :
    Prop where
  holds : user.Holds address.toNat bytes
  apart : address.toNat + bytes.length ≤ p.buffer.toNat ∨ p.buffer.toNat + size ≤ address.toNat

/-- The name that the kernel sees in a line: the line without its last character, up to the first
NUL. -/
def commandName (line : List UInt8) : CString where
  bytes := line.dropLast.takeWhile (· ≠ 0)
  terminated := by
    intro member
    simpa using List.mem_takeWhile_imp member

section Writing

variable {root : Nat} {s : System} {free : List Nat} {user : UserSpace} {bytes : List UInt8}
  {address : UInt64}

theorem holdsBytes (holds : HoldsUser root s.kernel free user)
    (text : user.Holds address.toNat bytes) :
    s.kernel.HoldsBytes address.toNat bytes := by
  intro i inside
  obtain ⟨low, here⟩ := text i inside
  rw [Nat.mod_eq_of_lt (by omega), holds.loadVirt_byteAt low, here]

theorem write_holds (input : Input) (holds : HoldsUser root s.kernel free user)
    (text : user.Holds address.toNat bytes) {n : UInt64} (length : n.toNat = bytes.length)
    (small : bytes.length < 2 ^ 31) :
    ∃ value, s.write input 1 address n = some (s.print bytes, value) := by
  have loaded : ∀ i < n.toNat, s.kernel.loadVirt ((address.toNat + i) % 2 ^ 64) = bytes[i]? := by
    intro i inside
    exact holdsBytes holds text i (by omega)
  have printed := write_writes bytes n.toNat (by omega)
  rw [if_pos (by omega), length, List.take_length] at printed
  obtain ⟨⟨count, output⟩, call, same⟩ := Option.map_eq_some_iff.mp printed
  have called := s.sysWrite_eq 1 address n loaded
  have one : (1 : UInt64).toNat = stdout := rfl
  rw [one, length, call, Option.map_some] at called
  rw [System.write, System.syscallHandler, if_pos rfl, called, ← same]
  exact ⟨_, rfl⟩

theorem upToNul_starts (text : List UInt8) : text.takeWhile (· ≠ 0) ++ [0] <+: text ++ [0] := by
  induction text with
  | nil => exact List.prefix_refl _
  | cons c rest ih =>
      by_cases zero : c = 0
      · rw [List.takeWhile_cons_of_neg (by simp [zero]), zero]
        exact ⟨rest ++ [0], rfl⟩
      · rw [List.takeWhile_cons_of_pos (by simp [zero])]
        exact List.cons_prefix_cons.mpr ⟨rfl, ih⟩

theorem UserSpace.Holds.start {more : List UInt8} {a : Nat} (holds : user.Holds a more)
    (starts : bytes <+: more) :
    user.Holds a bytes := by
  intro i inside
  have short := starts.length_le
  obtain ⟨low, here⟩ := holds i (by omega)
  refine ⟨low, here.trans ?_⟩
  obtain ⟨rest, rfl⟩ := starts
  exact List.getElem?_append_left inside

end Writing

section Exec

variable {s : System} {input : Input} {p : ShellText} {name : CString}

def System.runs (s : System) (name : CString) (size : UInt64) : Option (System × Option UInt64) :=
  match s.modulesList.find? fun m => m.string = name, s.modulesList.find? isInit with
  | some m, _ => (s.replaceProgram m).map fun s => (s, none)
  | none, some m => ((s.print invalidCommand.bytes).replaceProgram m).map fun s => (s, none)
  | none, none => some (s.print invalidCommand.bytes, some size)

theorem pieces_plain {bytes : List UInt8} (plain : byte '%' ∉ bytes) :
    pieces bytes [] = some (bytes.map Piece.plain) := by
  induction bytes with
  | nil => rfl
  | cons c rest ih =>
      rw [List.mem_cons, not_or] at plain
      rw [pieces.eq_def]
      simp only [if_neg (Ne.symm plain.1), ih plain.2]
      rfl

theorem printf_plain {format : CString} (plain : byte '%' ∉ format.bytes) :
    printf format [] = some format.bytes := by
  rw [printf, formatLoop_pieces (pieces_plain plain)]
  have short : ∀ piece ∈ format.bytes.map Piece.plain, piece.Short := by
    intro piece member
    obtain ⟨c, _, rfl⟩ := List.mem_map.mp member
    trivial
  rw [(printPiece_prints.concat_iff _).mpr short, List.flatMap_map]
  exact congrArg some (List.flatMap_singleton' _)

theorem invalidCommand_printed : printf invalidCommand [] = some invalidCommand.bytes :=
  printf_plain (by decide)

theorem shellExec_runs (named : s.kernel.HoldsBytes p.buffer.toNat name.buffer) (size : UInt64) :
    s.shellExec input p size = s.runs name size := by
  have found := findModule_eq p.buffer.toNat_lt named s.modulesList
  have exec : s.syscallHandler input 3 p.buffer 0 0 0 0 0 = s.sysExec p.buffer := rfl
  have exit : ∀ t : System, t.syscallHandler input 4 0 0 0 0 0 0 = t.sysExit 0 := fun _ => rfl
  have failed : intReturn (-1) = -1 := by decide
  rw [System.shellExec, System.runs, exec, System.sysExec, found]
  cases s.modulesList.find? fun m => m.string = name with
  | some m =>
      simp only [Option.bind_eq_bind]
      cases s.replaceProgram m <;> rfl
  | none =>
      simp only [Option.bind_eq_bind, Option.bind_some, if_pos failed, invalidCommand_printed, exit,
        System.sysExit]
      have modules : (s.print invalidCommand.bytes).modulesList = s.modulesList := rfl
      rw [modules]
      cases s.modulesList.find? System.isInit with
      | some m =>
          simp only
          cases (s.print invalidCommand.bytes).replaceProgram m <;> rfl
      | none => rfl

end Exec

section Round

variable {root : Nat} {s : System} {data : MouseData} {free : List Nat} {user : UserSpace}
  {p : ShellText} {size : UInt64}
  {keys line : List UInt8}

theorem takeLine_length {n : Nat} (taken : takeLine 10 n keys = some line) :
    line.length ≤ n ∧ (0 < n → 0 < line.length) := by
  induction n generalizing keys line with
  | zero =>
      cases taken
      exact ⟨le_refl 0, id⟩
  | succ n ih =>
      cases keys with
      | nil => cases taken
      | cons c keys =>
          rw [takeLine] at taken
          split at taken
          · cases taken
            exact ⟨Nat.succ_le_succ (Nat.zero_le n), fun _ => Nat.one_pos⟩
          · obtain ⟨rest, later, rfl⟩ := Option.map_eq_some_iff.mp taken
            exact ⟨Nat.succ_le_succ (ih later).1, fun _ => Nat.succ_pos _⟩

theorem ShellText.Literal.kept {now : UserSpace} {address : UInt64} {bytes : List UInt8}
    (literal : p.Literal user size.toNat address bytes)
    (outside : ∀ v, v < p.buffer.toNat ∨ p.buffer.toNat + size.toNat ≤ v →
      now.byteAt v = user.byteAt v) :
    now.Holds address.toNat bytes := by
  intro i inside
  obtain ⟨low, here⟩ := literal.holds i inside
  have apart := literal.apart
  exact ⟨low, (outside _ (by omega)).trans here⟩

theorem length_toNat (small : line.length < 2 ^ 64) :
    (UInt64.ofNat line.length).toNat = line.length := by
  rw [UInt64.toNat_ofNat']
  exact Nat.mod_eq_of_lt small

theorem last_address {a : UInt64} (nonempty : 0 < line.length)
    (fits : a.toNat + line.length < 2 ^ 64) :
    (a + (UInt64.ofNat line.length - 1)).toNat = a.toNat + (line.length - 1) := by
  have count : (UInt64.ofNat line.length).toNat = line.length := length_toNat (by omega)
  have before : (UInt64.ofNat line.length - 1).toNat = line.length - 1 := by
    rw [UInt64.toNat_sub_of_le _ _ (by rw [UInt64.le_iff_toNat_le, count]; exact nonempty), count]
    rfl
  rw [UInt64.toNat_add, before]
  exact Nat.mod_eq_of_lt (by omega)

/-- The last character of a line makes way for a NUL. -/
theorem line_cut {k : Kernel} {now : UserSpace} {buffer capacity : Nat}
    (holds : HoldsUser root k free now) (space : user.Buffer buffer capacity)
    (stored : LineAt user buffer capacity line now) (nonempty : 0 < line.length)
    (within : line.length ≤ capacity) :
    ∃ k' now', k.storeVirt (buffer + (line.length - 1)) 0 = some k' ∧ HoldsUser root k' free now' ∧
      (∀ v, v < buffer ∨ buffer + capacity ≤ v → now'.byteAt v = user.byteAt v) ∧
      now'.Holds buffer (line.dropLast ++ [0]) := by
  obtain ⟨low, writable⟩ := space (line.length - 1) (by omega)
  obtain ⟨k', now', cut, holds', put⟩ := holds.put low (stored.writable _ writable) 0
  refine ⟨k', now', cut, holds', ?_, ?_⟩
  · intro v apart
    calc
      now'.byteAt v = now.byteAt v := put.others v (by omega)
      _ = user.byteAt v := stored.outside v apart
  · intro i inside
    rw [List.length_append, List.length_dropLast, List.length_singleton] at inside
    refine ⟨(space i (by omega)).1, ?_⟩
    by_cases final : i = line.length - 1
    · rw [final, put.here, ← List.length_dropLast, List.getElem?_concat_length]
    · have front : i < line.dropLast.length := by
        rw [List.length_dropLast]
        omega
      calc
        now'.byteAt (buffer + i) = now.byteAt (buffer + i) := put.others _ (by omega)
        _ = (line)[i]? := stored.here i (by omega)
        _ = (line.dropLast ++ [0])[i]? := by
          rw [List.getElem?_append_left front, List.getElem?_dropLast, if_pos (by omega)]

/-- One round of the shell, on what is typed, if the kernel has a terminal. Until there is a whole
line it waits. Then the line is in the buffer, with a NUL for its last character, and the program
that it names runs. -/
theorem shell_round (data : MouseData) (holds : HoldsUser root s.kernel free user)
    (space : user.Buffer p.buffer.toNat size.toNat) (positive : 0 < size.toNat)
    (small : size.toNat < 2 ^ 31) (prompt : p.Literal user size.toNat p.prompt (ascii "$ ".toList))
    (newline : p.Literal user size.toNat p.newline (ascii "\n".toList)) :
    (takeLine 10 size.toNat keys = none → s.shellRound ⟨keys, data⟩ p size = none) ∧
    ∀ line, takeLine 10 size.toNat keys = some line → ∃ k now, HoldsUser root k free now ∧
      now.Holds p.buffer.toNat (line.dropLast ++ [0]) ∧
      (∀ v, v < p.buffer.toNat ∨ p.buffer.toNat + size.toNat ≤ v → now.byteAt v = user.byteAt v) ∧
      s.shellRound ⟨keys, data⟩ p size =
        { s with
          kernel := k
          printed := s.printed ++ ascii "$ ".toList ++ (line.dropLast ++ [0]) ++ ascii "\n".toList
          : System }.runs (commandName line) (UInt64.ofNat line.length) := by
  obtain ⟨value, prompted⟩ := write_holds ⟨keys, data⟩ holds prompt.holds (n := 2) rfl (by decide)
  have start := LineAt.start user p.buffer.toNat size.toNat
  have position : ([] : List UInt8).length + size.toNat = size.toNat := Nat.zero_add _
  constructor
  · intro short
    have waits : (s.print (ascii "$ ".toList)).getlineLoop data p.buffer size size.toNat
        (UInt64.ofNat ([] : List UInt8).length) keys = none :=
      getlineLoop_waits holds space start position short
    rw [System.shellRound, prompted]
    simp only [Option.bind_eq_bind, Option.bind_some, System.getline]
    rw [show (0 : UInt64) = UInt64.ofNat ([] : List UInt8).length from rfl, waits]
    rfl
  · intro line taken
    obtain ⟨within, nonempty⟩ := takeLine_length taken
    have some_character := nonempty positive
    obtain ⟨k1, now1, holds1, stored, returns⟩ :=
      getlineLoop_returns (s := s.print (ascii "$ ".toList)) data holds space start position taken
    have got := returns []
    simp only [List.nil_append, List.append_nil] at got stored
    obtain ⟨low, _⟩ := space (line.length - 1) (by omega)
    have last := last_address (a := p.buffer) some_character (by omega)
    obtain ⟨k2, now2, cut, holds2, outside, text⟩ :=
      line_cut holds1 space stored some_character within
    have count : (UInt64.ofNat line.length).toNat = line.length := length_toNat (by omega)
    have length : (UInt64.ofNat line.length).toNat = (line.dropLast ++ [0]).length := by
      rw [count, List.length_append, List.length_dropLast, List.length_singleton]
      omega
    let s2 : System := { s.print (ascii "$ ".toList) with kernel := k2 }
    obtain ⟨value2, echoed⟩ := write_holds (s := s2) ⟨keys, data⟩ holds2 text length (by omega)
    obtain ⟨value3, ended⟩ := write_holds (s := s2.print (line.dropLast ++ [0])) ⟨keys, data⟩ holds2
      (newline.kept outside) (n := 1) rfl (by decide)
    have named : ((s2.print (line.dropLast ++ [0])).print (ascii "\n".toList)).kernel.HoldsBytes
        p.buffer.toNat
        (commandName line).buffer :=
      holdsBytes (s := s2) holds2 (text.start (upToNul_starts line.dropLast))
    refine ⟨k2, now2, holds2, text, outside, ?_⟩
    rw [System.shellRound, prompted]
    simp only [Option.bind_eq_bind, Option.bind_some, System.getline]
    rw [show (0 : UInt64) = UInt64.ofNat ([] : List UInt8).length from rfl, got]
    simp only [Option.bind_some, last]
    rw [cut]
    simp only [Option.bind_some]
    have echoed' : { s.print (ascii "$ ".toList) with kernel := k2 : System }.write ⟨keys,
        data⟩ 1 p.buffer
        (UInt64.ofNat line.length) = some (s2.print (line.dropLast ++ [0]), value2) := echoed
    rw [echoed']
    simp only [Option.bind_some, ended]
    rw [shellExec_runs named]
    rfl

end Round

def bareShell : ShellText := ⟨0x400000, 0x400200, 0x400202⟩

theorem bare_shell : ∃ (s : System) (free : List Nat) (user : UserSpace),
    HoldsUser 0x1000 s.kernel free user ∧
    user.Buffer bareShell.buffer.toNat (100 : UInt64).toNat ∧
    bareShell.Literal user (100 : UInt64).toNat bareShell.prompt (ascii "$ ".toList) ∧
    bareShell.Literal user (100 : UInt64).toNat bareShell.newline (ascii "\n".toList) := by
  obtain ⟨s, free, user, holds, space⟩ := bare_buffer
  have start : (0x400000 : UInt64).toNat = 0x400000 := rfl
  rw [start] at space
  obtain ⟨k1, user1, _, holds1, put1⟩ :=
    holds.put (v := 0x400200) (by decide) (space 0x200 (by decide)).2 36
  obtain ⟨k2, user2, _, holds2, put2⟩ := holds1.put (v := 0x400201) (by decide)
    (put1.writable _ (space 0x201 (by decide)).2) 32
  obtain ⟨k3, user3, _, holds3, put3⟩ := holds2.put (v := 0x400202) (by decide)
    (put2.writable _ (put1.writable _ (space 0x202 (by decide)).2)) 10
  have dollar : user3.byteAt 0x400200 = some 36 := by
    rw [put3.others _ (by decide), put2.others _ (by decide), put1.here]
  have blank : user3.byteAt 0x400201 = some 32 := by
    rw [put3.others _ (by decide), put2.here]
  refine ⟨{ s with kernel := k3 }, free, user3, holds3, fun i bound => ?_,
    ⟨fun i inside => ?_, .inr (by decide)⟩,
    ⟨fun i inside => ?_, .inr (by decide)⟩⟩
  · have few : i < 100 := bound
    obtain ⟨low, writable⟩ := space i (by omega)
    exact ⟨low, put3.writable _ (put2.writable _ (put1.writable _ writable))⟩
  · have two : i < 2 := inside
    interval_cases i
    · exact ⟨by decide, dollar⟩
    · exact ⟨by decide, blank⟩
  · have one : i < 1 := inside
    interval_cases i
    exact ⟨by decide, put3.here⟩

theorem bare_shell_round : (commandName (ascii "paint\n".toList)).bytes = ascii "paint".toList ∧
    ∃ (s : System) (k : Kernel) (free : List Nat) (now : UserSpace), HoldsUser 0x1000 k free now ∧
      now.Holds 0x400000 (ascii "paint".toList ++ [0]) ∧
        s.shellRound ⟨ascii "paint\n".toList, idleInput.data⟩ bareShell 100 =
      { s with
        kernel := k
        printed := s.printed ++ ascii "$ ".toList ++ ((ascii "paint\n".toList).dropLast ++ [0]) ++
          ascii "\n".toList
        : System }.runs (commandName (ascii "paint\n".toList))
          (UInt64.ofNat (ascii "paint\n".toList).length) := by
  refine ⟨by decide, ?_⟩
  obtain ⟨s, free, user, holds, space, prompt, newline⟩ := bare_shell
  have taken : takeLine 10 (100 : UInt64).toNat (ascii "paint\n".toList) =
      some (ascii "paint\n".toList) := by decide
  obtain ⟨k, now, holds', text, _, round⟩ :=
    (shell_round idleInput.data holds space (by decide) (by decide) prompt newline).2 _ taken
  exact ⟨s, k, free, now, holds', text, round⟩

/-! The shell of the graphics mode: one key starts a program. -/

structure GraphicsShellText where
  buffer : UInt64
  helloworld : UInt64
  paint : UInt64

def GraphicsShellText.choice (p : GraphicsShellText) (c : UInt8) : Option UInt64 :=
  if c = byte '1' then some p.helloworld else if c = byte '2' then some p.paint else none

/-- `gexec` does not return if the program runs. -/
def System.gexecOr (input : Input) (name : UInt64) (next : System → Option System) (s : System) :
    Option System := do
  match ← s.syscallHandler input 9 name 0 0 0 0 0 with
  | (s, .enters) => return s
  | (s, .returns _) => next s

def System.graphicsShellLoop (data : MouseData) (p : GraphicsShellText) :
    List UInt8 → System → Option System
  | [], _ => none
  | key :: keys, s => do
      let (s, _) ← s.read ⟨key :: keys, data⟩ 0 p.buffer 1
      let c ← s.kernel.loadVirt p.buffer.toNat
      match p.choice c with
      | none => graphicsShellLoop data p keys s
      | some name => s.gexecOr ⟨keys, data⟩ name (graphicsShellLoop data p keys)

section GraphicsShell

variable {root : Nat} {s : System} {data : MouseData} {p : GraphicsShellText} {free : List Nat}
  {user now : UserSpace}
  {keys : List UInt8}

structure BesidesByte (user : UserSpace) (v : Nat) (now : UserSpace) : Prop where
  others : ∀ w, w ≠ v → now.byteAt w = user.byteAt w
  writable : ∀ w, user.WritableAt w → now.WritableAt w

/-- A key that stands for no program is in the buffer afterwards, and nothing else has changed. -/
theorem graphicsShell_key (data : MouseData) (c : UInt8) (holds : HoldsUser root s.kernel free user)
    (space : user.Buffer p.buffer.toNat 1) :
    ∃ k now, HoldsUser root k free now ∧ BesidesByte user p.buffer.toNat now ∧ ∀ keys,
      s.graphicsShellLoop data p (c :: keys) = match p.choice c with
        | none => System.graphicsShellLoop data p keys { s with kernel := k }
        | some name => System.gexecOr ⟨keys,
            data⟩ name (System.graphicsShellLoop data p keys) { s with kernel := k } := by
  obtain ⟨k, now, reads, holds', put⟩ := read_one data c holds space
  have low : p.buffer.toNat < 2 ^ 47 := (space 0 Nat.one_pos).1
  have loaded : k.loadVirt p.buffer.toNat = some c := by
    rw [holds'.loadVirt_byteAt low, put.here]
  refine ⟨k, now, holds', ⟨put.others, put.writable⟩, fun keys => ?_⟩
  rw [System.graphicsShellLoop, reads]
  simp only [Option.bind_eq_bind, Option.bind_some, loaded]

/-- The keys before the first that stands for a program are forgotten, and that one starts it, from
the memory that the shell had but for the byte of its buffer. Without such a key the shell waits. -/
theorem graphicsShell_launches (data : MouseData) (holds : HoldsUser root s.kernel free user)
    (space : user.Buffer p.buffer.toNat 1) {before : List UInt8}
    (others : ∀ c ∈ before, p.choice c = none) :
    s.graphicsShellLoop data p before = none ∧
    ∀ c name, p.choice c = some name → ∃ k now, HoldsUser root k free now ∧
      BesidesByte user p.buffer.toNat now ∧
      ∀ after, s.graphicsShellLoop data p (before ++ c :: after) =
        System.gexecOr ⟨after,
          data⟩ name (System.graphicsShellLoop data p after) { s with kernel := k } := by
  induction before generalizing s user with
  | nil =>
      refine ⟨rfl, fun c name chosen => ?_⟩
      obtain ⟨k, now, holds', besides, loop⟩ := graphicsShell_key data c holds space
      refine ⟨k, now, holds', besides, fun after => ?_⟩
      rw [List.nil_append, loop, chosen]
  | cons key before ih =>
      rw [List.forall_mem_cons] at others
      obtain ⟨k, now, holds', besides, loop⟩ := graphicsShell_key data key holds space
      have space' : now.Buffer p.buffer.toNat 1 :=
        fun i inside => ⟨(space i inside).1, besides.writable _ (space i inside).2⟩
      obtain ⟨waits, launches⟩ := ih (s := { s with kernel := k }) holds' space' others.2
      refine ⟨?_, fun c name chosen => ?_⟩
      · rw [loop, others.1]
        exact waits
      · obtain ⟨k', now', holds'', besides', rest⟩ := launches c name chosen
        refine ⟨k', now', holds'', ?_, fun after => ?_⟩
        · exact ⟨fun w different =>
            (besides'.others w different).trans (besides.others w different),
            fun w writable => besides'.writable w (besides.writable w writable)⟩
        · rw [List.cons_append, loop, others.1]
          exact rest after

end GraphicsShell

def bareGraphicsShell : GraphicsShellText := ⟨0x400000, 0x400200, 0x400210⟩

theorem bare_graphicsShell : ∃ (s : System) (k : Kernel),
    s.graphicsShellLoop idleInput.data bareGraphicsShell ([0x78] ++ 0x31 :: []) =
      System.gexecOr ⟨[],
        idleInput.data⟩ 0x400200 (System.graphicsShellLoop idleInput.data bareGraphicsShell [])
        { s with kernel := k } := by
  obtain ⟨s, free, user, holds, space⟩ := bare_buffer
  have room : user.Buffer bareGraphicsShell.buffer.toNat 1 := space.shrink (by omega)
  have others : ∀ c ∈ [(0x78 : UInt8)], bareGraphicsShell.choice c = none := by
    intro c member
    rw [List.mem_singleton.mp member]
    rfl
  obtain ⟨k, _, _, _, loop⟩ :=
    (graphicsShell_launches idleInput.data holds room others).2 0x31 0x400200 rfl
  exact ⟨s, k, loop []⟩

end PaintKernel
