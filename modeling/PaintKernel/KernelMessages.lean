import Mathlib
import PaintKernel.Boot
import PaintKernel.Library.Run

set_option autoImplicit false

/-! What the kernel prints, and whether the terminal is ready for it. -/

namespace PaintKernel

open Transition

inductive TerminalCall where
  | init
  | putchar (c : UInt8)
  deriving DecidableEq, Repr

/-- The kernel with the calls of `term_init` and `term_putchar` so far. Nothing calls `term_init`.
-/
structure Machine where
  system : System
  phase : Phase
  terminal : List TerminalCall

def Machine.reach (m : Machine) (s : System) (phase : Phase) : Machine where
  system := s
  phase := phase
  terminal := m.terminal ++ (s.printed.drop m.system.printed.length).map .putchar

inductive MachineEvent where
  | start (tags : BootTags)
  | user (e : UserEvent)
  | exception (vector : Fin exceptionFormats.length) (ec : UInt64)

/-- The handlers of the exceptions end in `halt`. -/
inductive MachineStep : Machine → MachineEvent → Machine → Prop where
  | start {m : Machine} {tags : BootTags} {s : System} {phase : Phase}
      (booting : m.phase = .booting)
      (call : m.system.start tags = some (s, phase)) : MachineStep m (.start tags) (m.reach s phase)
  | user {m : Machine} {e : UserEvent} {s : System} (running : m.phase = .user)
      (step : UserStep m.system e s) : MachineStep m (.user e) (m.reach s .user)
  | exception {m : Machine} {vector : Fin exceptionFormats.length} {ec : UInt64} {text : List UInt8}
      (running : m.phase ≠ .halted) (handled : exceptionText vector ec = some text) :
      MachineStep m (.exception vector ec) (m.reach (m.system.print text) .halted)

def Machine.Ready (m : Machine) : Prop :=
  ∀ (i : Nat) c, m.terminal[i]? = some (.putchar c) → ∃ j < i, m.terminal[j]? = some .init

def System.MapsAll (s : System) (root : Nat) (write exec : Bool) : List Nat → Prop
  | [] => True
  | a :: rest =>
      (s.kernel.vmMap root a true write exec).2 = true ∧
        (s.mapUserPage root write exec a).MapsAll root write exec rest

def LoadEvent.Quiet : LoadEvent → Prop
  | .vmMap _ mapped => mapped = true
  | .vmProtect _ changed => changed = true
  | _ => True

def Kernel.LoadsQuietly (k : Kernel) (image : Nat → UInt8) : Prop :=
  ∀ loader, loadProgram image k = some loader → ∀ e ∈ loader.log, e.Quiet

def System.beforeLaunch (s : System) : UserEvent → System
  | .syscall input nr .. => if nr = 9 then s.clearScreen input else s
  | .store .. => s

def System.Silent (s : System) (e : UserEvent) : Prop :=
  (match e with
    | .syscall _ nr arg0 arg1 arg2 .. =>
        (nr = 1 → arg0 = 1 ∨ arg0 = 2 → arg2 = 0) ∧
        (nr = 2 → (s.advance arg0 arg1).MapsAll s.kernel.activeRoot (arg2.toNat.testBit 1)
          (arg2.toNat.testBit 2) (s.mmapped e))
    | .store .. => True) ∧
  ∀ p, s.launched e = some p →
    ((s.beforeLaunch e).kernel.unmapLowerHalf (s.beforeLaunch e).kernel.activeRoot).LoadsQuietly
      p.image

/-- None of the branches that print is taken. -/
def Machine.Silent (m : Machine) : MachineEvent → Prop
  | .start tags => ∀ s, m.system.boot tags = some s →
      ∀ p, s.modulesList.find? System.isInit = some p →
      s.kernel.LoadsQuietly p.image
  | .user e => m.system.Silent e
  | .exception .. => False

def Prints (s s' : System) (quiet : Prop) : Prop :=
  ∃ text, s'.printed = s.printed ++ text ∧ (text = [] ↔ quiet)

section Prints

variable {s s' : System}

theorem prints_nothing (same : s'.printed = s.printed) {quiet : Prop} (silent : quiet) :
    Prints s s' quiet :=
  ⟨[], by rw [same, List.append_nil], iff_of_true rfl silent⟩

theorem Prints.congr {quiet other : Prop} (prints : Prints s s' quiet) (same : quiet ↔ other) :
    Prints s s' other := by
  rcases prints with ⟨text, printed, silent⟩
  exact ⟨text, printed, silent.trans same⟩

theorem sysWrite_prints {fd buffer size : UInt64} {outcome : Outcome}
    (call : s.sysWrite fd buffer size = some (s', outcome)) :
    Prints s s' (fd = 1 ∨ fd = 2 → size = 0) := by
  have loop : ∀ (xs : List Nat) (s t : System) (count last : Int),
      xs.foldlM (fun (state : System × Int) i => do
        let c ← state.1.kernel.loadVirt ((buffer.toNat + i) % 2 ^ 64)
        let count ← MachineInt.int32 (state.2 + 1)
        return (state.1.print [c], count)) (s, count) = some (t, last) →
      ∃ text, t.printed = s.printed ++ text ∧ text.length = xs.length := by
    intro xs
    induction xs with
    | nil =>
        intro s t count last run
        cases run
        exact ⟨[], (List.append_nil _).symm, rfl⟩
    | cons i rest ih =>
        intro s t count last run
        simp only [List.foldlM_cons, Option.bind_eq_bind, Option.bind_eq_some_iff] at run
        rcases run with ⟨⟨u, next⟩, ⟨c, _, n, _, here⟩, later⟩
        cases here
        rcases ih _ t _ last later with ⟨text, printed, length⟩
        exact ⟨c :: text, by rw [printed, System.print,
          List.append_assoc]; rfl, by rw [List.length_cons, length, List.length_cons]⟩
  unfold System.sysWrite at call
  split at call
  · rename_i other
    cases call
    exact prints_nothing rfl fun standard => absurd other (by tauto)
  · rename_i standard
    simp only [Option.bind_eq_bind, Option.bind_eq_some_iff] at call
    rcases call with ⟨⟨t, count⟩, run, last⟩
    cases last
    rcases loop _ _ _ _ _ run with ⟨text, printed, length⟩
    refine ⟨text, printed, ?_⟩
    have empty : size = 0 ↔ size.toNat = 0 := UInt64.toNat_inj.symm
    rw [← List.length_eq_zero_iff, length, List.length_range, empty]
    tauto

/-- Each page that cannot be mapped is reported. -/
theorem mapUserPage_prints (s : System) (root : Nat) (write exec : Bool) (pages : List Nat) :
    Prints s (pages.foldl (fun s a => s.mapUserPage root write exec a) s)
      (s.MapsAll root write exec pages) := by
  induction pages generalizing s with
  | nil => exact prints_nothing rfl trivial
  | cons a rest ih =>
      rcases ih (s.mapUserPage root write exec a) with ⟨text, printed, silent⟩
      rw [List.foldl_cons, System.MapsAll]
      cases mapped : (s.kernel.vmMap root a true write exec).2 with
      | true =>
          have same : (s.mapUserPage root write exec a).printed = s.printed := by
            simp only [System.mapUserPage, mapped, if_true]
          rw [same] at printed
          exact ⟨text, printed, by simp [silent]⟩
      | false =>
          have report : (s.mapUserPage root write exec a).printed =
              s.printed ++ ascii "mem map failed\n".toList := by
            simp [System.mapUserPage, mapped, System.print]
          rw [report, List.append_assoc] at printed
          refine ⟨_, printed, iff_of_false ?_ (by simp)⟩
          exact List.append_ne_nil_of_left_ne_nil (by decide) _

def Loader.Reports (s : Loader) : Prop := s.log.flatMap LoadEvent.text = [] ↔ ∀ e ∈ s.log, e.Quiet

theorem Loader.Reports.append {k k' : Kernel} {log added : List LoadEvent}
    (before : Loader.Reports ⟨k, log⟩)
    (here : added.flatMap LoadEvent.text = [] ↔ ∀ e ∈ added, e.Quiet) :
    Loader.Reports ⟨k', log ++ added⟩ := by
  rw [Loader.Reports] at before ⊢
  rw [List.flatMap_append, List.append_eq_nil_iff, List.forall_mem_append]
  exact and_congr before here

theorem reports_call {call : LoadEvent} {message : String} {done : Bool} (silent : call.text = [])
    (quiet : call.Quiet ↔ done = true) (worded : ascii message.toList ≠ []) :
    (call :: if done then [] else [.kprintf message]).flatMap LoadEvent.text = [] ↔
      ∀ e ∈ call :: if done then [] else [.kprintf message], e.Quiet := by
  rw [List.flatMap_cons, silent, List.forall_mem_cons, quiet]
  cases done with
  | true => simp
  | false => exact iff_of_false (by simpa [LoadEvent.text] using worded) (by simp)

theorem loadProgram_reports {image : Nat → UInt8} {k : Kernel} {loader : Loader}
    (run : loadProgram image k = some loader) : loader.Reports := by
  refine loadSegments_invariant Loader.Reports ?_ ?_ ?_ run (by simp [Loader.Reports])
  · exact fun address s before => before.append (reports_call rfl Iff.rfl (by decide))
  · exact fun s k des src writable before =>
      before.append (by simp [LoadEvent.text, LoadEvent.Quiet])
  · exact fun r w x address s before => before.append (reports_call rfl Iff.rfl (by decide))

theorem runProgram_prints {image : Nat → UInt8} (run : s.runProgram image = some s') :
    Prints s s' (s.kernel.LoadsQuietly image) := by
  simp only [System.runProgram, Option.bind_eq_bind, Option.bind_eq_some_iff] at run
  rcases run with ⟨loader, loaded, last⟩
  cases last
  refine ⟨_, rfl, (loadProgram_reports loaded).trans ⟨fun quiet other found => ?_, fun quiet =>
    quiet loader loaded⟩⟩
  rw [loaded] at found
  cases found
  exact quiet

theorem replaceProgram_prints {p : Module} (run : s.replaceProgram p = some s') :
    Prints s s' ((s.kernel.unmapLowerHalf s.kernel.activeRoot).LoadsQuietly p.image) :=
  runProgram_prints run

theorem replaced_prints {p : Module} {outcome : Outcome}
    (call : (s.replaceProgram p).map (fun t => (t, Outcome.enters)) = some (s', outcome)) :
    Prints s s' ((s.kernel.unmapLowerHalf s.kernel.activeRoot).LoadsQuietly p.image) := by
  rw [Option.map_eq_some_iff] at call
  rcases call with ⟨t, run, last⟩
  cases last
  exact replaceProgram_prints run

theorem sysExec_prints {file : UInt64} {outcome : Outcome}
    (call : s.sysExec file = some (s', outcome)) :
    Prints s s' (∀ p, (s.findModule file.toNat s.modulesList).join = some p →
      (s.kernel.unmapLowerHalf s.kernel.activeRoot).LoadsQuietly p.image) := by
  unfold System.sysExec at call
  split at call
  · cases call
  · rename_i absent
    cases call
    exact prints_nothing rfl (by simp [absent])
  · rename_i p found
    exact (replaced_prints call).congr (by simp [found])

theorem sysExit_prints {status : UInt64} {outcome : Outcome}
    (call : s.sysExit status = some (s', outcome)) :
    Prints s s' (∀ p, s.modulesList.find? System.isInit = some p →
      (s.kernel.unmapLowerHalf s.kernel.activeRoot).LoadsQuietly p.image) := by
  unfold System.sysExit at call
  split at call
  · rename_i absent
    cases call
    exact prints_nothing rfl (by simp [absent])
  · rename_i p found
    exact (replaced_prints call).congr (by simp [found])

theorem sysMmap_prints {addr len prot : UInt64} {outcome : Outcome}
    (call : s.sysMmap addr len prot = some (s', outcome)) :
    Prints s s' ((s.advance addr len).MapsAll s.kernel.activeRoot (prot.toNat.testBit 1)
      (prot.toNat.testBit 2) (System.regionPages (s.pick addr) len)) := by
  rw [System.sysMmap_eq] at call
  split at call
  · cases call
    have advanced : (s.advance addr len).printed = s.printed := by
      unfold System.advance
      split <;> rfl
    rcases mapUserPage_prints (s.advance addr len) s.kernel.activeRoot (prot.toNat.testBit 1)
      (prot.toNat.testBit 2) (System.regionPages (s.pick addr) len) with ⟨text, printed, silent⟩
    rw [advanced, System.regionPages, List.foldl_map] at printed
    exact ⟨text, printed, silent⟩
  · cases call

theorem sysRead_printed {input : Input} {fd buffer size : UInt64} {outcome : Outcome}
    (call : s.sysRead input fd buffer size = some (s', outcome)) : s'.printed = s.printed := by
  unfold System.sysRead at call
  split at call
  · cases call
    rfl
  · simp only [Option.bind_eq_bind, Option.bind_eq_some_iff] at call
    rcases call with ⟨_, _, _, _, ⟨k, length⟩, _, last⟩
    cases last
    rfl

theorem sysReadmouse_printed {input : Input} {mouseData : UInt64} {outcome : Outcome}
    (call : s.sysReadmouse input mouseData = some (s', outcome)) : s'.printed = s.printed := by
  simp only [System.sysReadmouse, Option.bind_eq_bind, Option.bind_eq_some_iff] at call
  rcases call with ⟨k, _, last⟩
  cases last
  rfl

theorem sysGwrite_printed {x y color : UInt32} {buffer size : UInt64} {outcome : Outcome}
    (call : s.sysGwrite x y color buffer size = some (s', outcome)) : s'.printed = s.printed := by
  simp only [System.sysGwrite, Option.bind_eq_bind, Option.bind_eq_some_iff] at call
  rcases call with ⟨t, run, last⟩
  cases last
  have step : ∀ (t : System) (i : Nat) (next : System), t.printed = s.printed →
      ((t.kernel.loadVirt ((buffer.toNat + i) % 2 ^ 64)).bind fun c =>
        pure (t.draw (t.framebuffer.gkprintC t.beyond c ((x.toNat + 8 * i) % 2 ^ 32) y.toNat
          color.toNat))) =
        some next → next.printed = s.printed := by
    intro t i next before drawn
    rw [Option.bind_eq_some_iff] at drawn
    rcases drawn with ⟨c, _, here⟩
    cases here
    exact before
  exact invariant step (run_of_foldlM run) rfl

/-- A system call prints exactly when it takes one of the branches that do. -/
theorem syscallHandler_prints {input : Input} {nr arg0 arg1 arg2 arg3 arg4 arg5 : UInt64}
    {outcome : Outcome}
    (call : s.syscallHandler input nr arg0 arg1 arg2 arg3 arg4 arg5 = some (s', outcome)) :
    Prints s s' (s.Silent (.syscall input nr arg0 arg1 arg2 arg3 arg4 arg5)) := by
  have quiet : nr ≠ 1 → nr ≠ 2 → nr ≠ 3 → nr ≠ 4 → nr ≠ 9 →
      s.Silent (.syscall input nr arg0 arg1 arg2 arg3 arg4 arg5) := by
    intro write mmap exec exit gexec
    simp [System.Silent, System.launched, write, mmap, exec, exit, gexec]
  cases System.syscallHandler_handled call with
  | write call => exact (sysWrite_prints call).congr (by simp [System.Silent, System.launched])
  | read call =>
      exact prints_nothing (sysRead_printed call)
        (quiet (by decide) (by decide) (by decide) (by decide) (by decide))
  | mmap call =>
      exact (sysMmap_prints call).congr (by simp [System.Silent, System.launched, System.mmapped])
  | exec call =>
      exact (sysExec_prints call).congr
        (by simp [System.Silent, System.launched, System.beforeLaunch])
  | exit call =>
      exact (sysExit_prints call).congr
        (by simp [System.Silent, System.launched, System.beforeLaunch])
  | drawRectangle =>
      exact prints_nothing rfl (quiet (by decide) (by decide) (by decide) (by decide) (by decide))
  | readmouse call =>
      exact prints_nothing (sysReadmouse_printed call)
        (quiet (by decide) (by decide) (by decide) (by decide) (by decide))
  | updateSavedPixels =>
      exact prints_nothing rfl (quiet (by decide) (by decide) (by decide) (by decide) (by decide))
  | gwrite call =>
      exact prints_nothing (sysGwrite_printed call)
        (quiet (by decide) (by decide) (by decide) (by decide) (by decide))
  | gexec call =>
      have modules : (s.clearScreen input).modulesList = s.modulesList := rfl
      exact (sysExec_prints (s := s.clearScreen input) call).congr
        (by simp [System.Silent, System.launched, System.beforeLaunch, modules])
  | unknown other =>
      simp only [List.mem_cons, List.not_mem_nil, or_false, not_or] at other
      exact prints_nothing rfl (by apply quiet <;> tauto)

theorem boot_silent {tags : BootTags} (booted : s.boot tags = some s') :
    s'.printed = s.printed ∧ s'.modulesList = tags.modules := by
  simp only [System.boot, Option.bind_eq_bind, Option.bind_eq_some_iff] at booted
  rcases booted with ⟨k, _, last⟩
  cases last
  exact ⟨rfl, rfl⟩

theorem start_prints {tags : BootTags} {phase : Phase} (call : s.start tags = some (s', phase)) :
    Prints s s' (∀ t, s.boot tags = some t → ∀ p, t.modulesList.find? System.isInit = some p →
      t.kernel.LoadsQuietly p.image) := by
  simp only [System.start, Option.bind_eq_bind, Option.bind_eq_some_iff] at call
  rcases call with ⟨t, booted, run⟩
  have before := (boot_silent booted).1
  split at run
  · rename_i absent
    cases run
    refine prints_nothing before ?_
    intro t' same p found
    rw [booted] at same
    cases same
    rw [absent] at found
    cases found
  · rename_i p found
    rw [Option.bind_eq_some_iff] at run
    rcases run with ⟨u, ran, last⟩
    cases last
    rcases runProgram_prints ran with ⟨text, printed, silent⟩
    rw [before] at printed
    refine ⟨text, printed, silent.trans ?_⟩
    simp [booted, found]

end Prints

section Machine

variable {m next : Machine} {e : MachineEvent}

theorem machineStep_calls (step : MachineStep m e next) :
    ∃ text, next.terminal = m.terminal ++ text.map .putchar ∧ (text = [] ↔ m.Silent e) := by
  have reached : ∀ {s phase quiet}, Prints m.system s quiet →
      ∃ text, (m.reach s phase).terminal = m.terminal ++ text.map .putchar ∧
        (text = [] ↔ quiet) := by
    rintro s phase quiet ⟨text, printed, silent⟩
    exact ⟨text, by rw [Machine.reach, printed, List.drop_left], silent⟩
  cases step with
  | start _ call => exact reached (start_prints call)
  | user _ step =>
      cases step with
      | syscall call => exact reached (syscallHandler_prints call)
      | store => exact reached (prints_nothing rfl ⟨trivial, fun _ none => nomatch none⟩)
  | exception _ handled =>
      exact reached ⟨_, rfl, iff_of_false (exceptionText_ne_nil handled) not_false⟩

/-- On a terminal that nothing has called yet, only a step that prints nothing is safe. -/
theorem ready_iff (untouched : m.terminal = []) (step : MachineStep m e next) :
    next.Ready ↔ m.Silent e := by
  rcases machineStep_calls step with ⟨text, calls, silent⟩
  rw [untouched, List.nil_append] at calls
  rw [← silent]
  constructor
  · intro ready
    cases text with
    | nil => rfl
    | cons c rest =>
        rcases ready 0 c (by rw [calls]; rfl) with ⟨j, before, _⟩
        exact absurd before (Nat.not_lt_zero j)
  · intro none i c place
    rw [calls, none] at place
    cases place

theorem untouched_next (untouched : m.terminal = []) (step : MachineStep m e next)
    (silent : m.Silent e) :
    next.terminal = [] := by
  rcases machineStep_calls step with ⟨text, calls, same⟩
  rw [calls, untouched, same.mpr silent]
  rfl

end Machine

/-- In a run from `_start` every character goes to an initialised terminal exactly when no step
prints anything: `term_init` is never called. -/
theorem terminal_ready_iff (s : System) {events : List MachineEvent} {m : Machine} :
    Run (fun m e next => MachineStep m e next ∧ next.Ready) ⟨s, .booting, []⟩ events m ↔
      Run (fun m e next => MachineStep m e next ∧ m.Silent e) ⟨s, .booting, []⟩ events m :=
  run_congr (fun m : Machine => m.terminal = []) (p := fun _ _ (next : Machine) => next.Ready)
    (q := fun (m : Machine) e _ => m.Silent e) (fun _ _ _ => ready_iff) (fun _ _ _ =>
      untouched_next) rfl

def emptyInit : Module := ⟨⟨ascii "init".toList, by decide⟩, fun _ => 0⟩

def smallTags : BootTags where
  hhdm := bareKernel.virtualOffset
  hhdm_lt := bareKernel.offset_lt
  memmap := [⟨0x100000, 0x4000, 1⟩]
  framebuffer := squareScreen
  framebufferAddr := 0xFFFF8000FD000000
  modules := [emptyInit]

def resetSystem : System := { bareSystem with kernel := { bareKernel with freelist := 0 } }

theorem emptyInit_quiet (k : Kernel) : k.LoadsQuietly emptyInit.image := by
  intro loader loaded
  have nothing : loadProgram emptyInit.image k = some ⟨k, []⟩ := rfl
  rw [nothing] at loaded
  cases loaded
  exact fun _ none => nomatch none

theorem write_before_init :
    ∃ m, Run MachineStep ⟨resetSystem, .booting, []⟩
      [.start smallTags,
        .user (.syscall ⟨[], ⟨100, 100, false, false, false⟩⟩ 1 1 0xFFFF800000000000 1 0 0 0)] m ∧
      ¬ m.Ready := by
  have started : ∃ s, resetSystem.start smallTags = some (s, .user) := ⟨_, rfl⟩
  rcases started with ⟨s, started⟩
  have first := MachineStep.start (m := ⟨resetSystem, .booting, []⟩) rfl started
  have silent : Machine.Silent ⟨resetSystem, .booting, []⟩ (.start smallTags) := by
    intro t booted p found
    have modules : t.modulesList = [emptyInit] := (boot_silent booted).2
    rw [modules] at found
    cases found
    exact emptyInit_quiet _
  have untouched := untouched_next rfl first silent
  have written : ∃ s' outcome, s.syscallHandler ⟨[], ⟨100, 100, false, false, false⟩⟩ 1 1
      0xFFFF800000000000 1 0 0 0 =
      some (s', outcome) := ⟨_, _, rfl⟩
  rcases written with ⟨s', outcome, written⟩
  have second := MachineStep.user (m := Machine.reach ⟨resetSystem, .booting, []⟩ s .user)
    rfl (.syscall written)
  refine ⟨_, .cons first (.cons second (.nil _)), ?_⟩
  rw [ready_iff untouched second]
  intro quiet
  have size : (1 : UInt64) = 0 := quiet.1.1 rfl (.inl rfl)
  exact absurd size (by decide)

end PaintKernel
