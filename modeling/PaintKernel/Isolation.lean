import Mathlib
import PaintKernel.Confinement
import PaintKernel.Syscalls

set_option autoImplicit false

/-! The higher half while programs make system calls. -/

namespace PaintKernel

open ByteMemory LinkedList MachineInt Transition

/-- A program calls the kernel or writes into its own memory. -/
inductive UserEvent where
  | syscall (input : Input) (nr arg0 arg1 arg2 arg3 arg4 arg5 : UInt64)
  | store (address : Nat) (byte : UInt8)

inductive UserStep : System → UserEvent → System → Prop where
  | syscall {s s' : System} {input : Input} {nr arg0 arg1 arg2 arg3 arg4 arg5 : UInt64}
      {outcome : Outcome}
      (call : s.syscallHandler input nr arg0 arg1 arg2 arg3 arg4 arg5 = some (s', outcome)) :
      UserStep s (.syscall input nr arg0 arg1 arg2 arg3 arg4 arg5) s'
  | store {s : System} {k : Kernel} {address : Nat} {byte : UInt8} (low : address < 2 ^ 47)
      (stored : s.kernel.storeVirt address byte = some k) :
      UserStep s (.store address byte) { s with kernel := k }

/-! What an event does to memory, by its arguments. -/

def stackAddresses : List Nat := (List.range 8).map fun i => userStack + 4096 * i

def Module.addresses (m : Module) : List Nat := segmentAddresses m.image ++ stackAddresses

namespace System

variable (s : System)

def regionPages (addr len : UInt64) : List Nat :=
  (List.range (pageCount addr len)).map (pageAddress (startPage addr).toNat)

def mmapped : UserEvent → List Nat
  | .syscall _ nr arg0 arg1 .. => if nr = 2 then regionPages (s.pick arg0) arg1 else []
  | .store .. => []

def cursor : UserEvent → UInt64
  | .syscall _ nr arg0 arg1 .. => if nr = 2 then (s.advance arg0 arg1).addre else s.addre
  | .store .. => s.addre

def launched : UserEvent → Option Module
  | .syscall input nr arg0 .. =>
      if nr = 3 then (s.findModule arg0.toNat s.modulesList).join
      else if nr = 4 then s.modulesList.find? isInit
      else if nr = 9 then ((s.clearScreen input).findModule arg0.toNat s.modulesList).join
      else none
  | .store .. => none

end System

def UserEvent.filled : UserEvent → List Nat
  | .syscall _ nr arg0 arg1 arg2 .. =>
      if nr = 0 ∧ (arg0 = 0 ∨ arg0 = 3) then
        (List.range (max arg2.toNat 1)).map fun i => (arg1.toNat + i) % 2 ^ 64
      else if nr = 6 then (List.range 11).map fun i => (arg0.toNat + i) % 2 ^ 64
      else []
  | .store .. => []

def UserEvent.Visible (fb : Framebuffer) : UserEvent → Prop
  | .syscall _ nr arg0 arg1 arg2 arg3 arg4 _ =>
      (nr = 5 → arg2.toUInt32 = 1 ∧ arg3.toUInt32 = 1 →
        arg0.toUInt32.toNat < fb.width ∧ arg1.toUInt32.toNat < fb.height) ∧
      (nr = 8 → ∀ i < arg4.toNat, (arg0.toUInt32.toNat + 8 * i) % 2 ^ 32 + 8 ≤ fb.width ∧
        arg1.toUInt32.toNat + 8 ≤ fb.height)
  | .store .. => True

/-- The event maps pages of the lower half only, there are free pages for them, and what it stores
and draws lands in the lower half, on the screen or in memory that the kernel does not use. -/
structure Confined (s : System) (free : List Nat) (e : UserEvent) : Prop where
  mapped : ∀ a ∈ s.mmapped e,
    LowerHalf a ∨ pageAt s.kernel.mem s.kernel.activeRoot (indices a) ≠ none
  supplied : Supplied UserPath s.kernel s.kernel.activeRoot free (s.mmapped e)
  launched : ∀ m, s.launched e = some m →
    (demand m.addresses).card ≤ free.length ∨ Spare UserPath s.kernel s.kernel.activeRoot
  filled : ∀ v ∈ e.filled,
    v < 2 ^ 47 ∨ Unmanaged s.kernel.mem s.kernel.activeRoot free (s.kernel.deref v)
  visible : e.Visible s.framebuffer

structure Contained (g : Guard) (s : System) (free : List Nat) : Prop where
  kernel : Guarded g s.kernel free
  screen : ∀ i < s.framebuffer.height * s.framebuffer.pitch,
    g.device (s.kernel.deref s.framebufferAddr + i)
  modules : ∀ m ∈ s.modulesList, LinkedLow m.image
  cursor : s.addre = g.cursor

section Steps

variable {g : Guard} {s s' : System} {free : List Nat} {placed : Nat → Prop}

theorem deref_congr {k k' : Kernel} (offset : k'.virtualOffset = k.virtualOffset) (ptr : Nat) :
    k'.deref ptr = k.deref ptr := by
  rw [Kernel.deref, Kernel.deref, offset]

theorem Contained.withKernel {k : Kernel} {free' : List Nat} (contained : Contained g s free)
    (guarded : Guarded { g with placed := placed } k free') :
    Contained { g with placed := placed } { s with kernel := k } free' where
  kernel := guarded
  screen := by
    intro i bound
    rw [deref_congr (guarded.offset.trans contained.kernel.offset.symm)]
    exact contained.screen i bound
  modules := contained.modules
  cursor := contained.cursor

theorem Contained.print (contained : Contained g s free) (text : List UInt8) :
    Contained g (s.print text) free :=
  ⟨contained.kernel, contained.screen, contained.modules, contained.cursor⟩

def System.OnFramebuffer (s : System) (n : Nat) : Prop :=
  ∃ i < s.framebuffer.height * s.framebuffer.pitch, n = s.kernel.deref s.framebufferAddr + i

theorem System.draw_outside {f : Mem → Mem} {n : Nat} (bounds : s.framebuffer.Bounds f)
    (off : ¬s.OnFramebuffer n) :
    (s.draw f).kernel.mem n = s.kernel.mem n := by
  simp only [System.draw, Kernel.draw]
  split
  · rename_i inside
    rw [bounds _ _ ?_]
    · congr 1
      omega
    · by_contra short
      exact off ⟨n - s.kernel.deref s.framebufferAddr, by omega, by omega⟩
  · rfl

theorem Contained.draw {f : Mem → Mem} (contained : Contained g s free)
    (bounds : s.framebuffer.Bounds f) :
    Contained g (s.draw f) free ∧
      (Spare UserPath s.kernel g.root → Spare UserPath (s.draw f).kernel g.root) ∧
      ∀ path, pageAt (s.draw f).kernel.mem g.root path = pageAt s.kernel.mem g.root path := by
  have changes : ∀ n, (s.draw f).kernel.mem n ≠ s.kernel.mem n → g.device n := by
    intro n changed
    by_contra elsewhere
    apply changed
    apply System.draw_outside bounds
    rintro ⟨i, bound, rfl⟩
    exact elsewhere (contained.screen i bound)
  have harmless := fun n changed => (contained.kernel.device n (changes n changed)).2
  rcases contained.kernel.outside harmless with
    ⟨after, same⟩
  refine ⟨contained.withKernel after, ?_, same⟩
  rintro (zero | ⟨ended, noTable⟩)
  · exact .inl zero
  · refine .inr ⟨?_, fun path mine => ?_⟩
    · have next : nextNode (s.draw f).kernel.mem 0 = nextNode s.kernel.mem 0 := by
        apply readLE_congr
        intro n _ upper
        by_contra changed
        have above := (contained.kernel.device n (changes n changed)).1
        omega
      exact next.trans ended
    · exact (same path).symm ▸ noTable path mine

theorem Contained.weaken (contained : Contained g s free) (more : ∀ p, g.placed p → placed p) :
    Contained { g with placed := placed } s free :=
  ⟨{ contained.kernel with
      mapped := fun v low found => more _ (contained.kernel.mapped v low found) },
    contained.screen, contained.modules, contained.cursor⟩

/-! Buffers. -/

structure Filling (g : Guard) (k : Kernel) (free : List Nat) (k' : Kernel) : Prop where
  guarded : Guarded g k' free
  pages : ∀ path, pageAt k'.mem g.root path = pageAt k.mem g.root path

theorem Filling.store {k k' k'' : Kernel} {v : Nat} {byte : UInt8} (filling : Filling g k free k')
    (offset : k.virtualOffset = g.offset) (stored : k'.storeVirt v byte = some k'')
    (harmless : v < 2 ^ 47 ∨ Unmanaged k.mem g.root free (k.deref v)) : Filling g k free k'' := by
  have target : v < 2 ^ 47 ∨ Unmanaged k'.mem g.root free (k'.deref v) := by
    refine harmless.imp_right fun outside => ?_
    rw [deref_congr (filling.guarded.offset.trans offset.symm)]
    refine ⟨outside.1, fun path table short found => outside.2 path table short ?_⟩
    rwa [filling.pages] at found
  rcases filling.guarded.storeVirt stored target with ⟨after, same, _⟩
  exact ⟨after, fun path => (same path).trans (filling.pages path)⟩

theorem readLoop_filling {k k' k'' : Kernel} {buffer size length n : Nat} {keys : List UInt8}
    (offset : k.virtualOffset = g.offset)
    (harmless : ∀ i < size, (buffer + i) % 2 ^ 64 < 2 ^ 47 ∨
      Unmanaged k.mem g.root free (k.deref ((buffer + i) % 2 ^ 64)))
    (filling : Filling g k free k')
    (run : System.readLoop buffer size keys length k' = some (k'', n)) :
    Filling g k free k'' := by
  induction keys generalizing length k' with
  | nil =>
      rw [System.readLoop] at run
      split at run
      · cases run
      · cases run
        exact filling
  | cons c keys ih =>
      rw [System.readLoop] at run
      split at run
      · rename_i below
        split at run
        · exact ih filling run
        · split at run
          · cases run
          · rename_i stored
            exact ih (filling.store offset stored (harmless length below)) run
      · cases run
        exact filling

theorem storeBytes_filling {k k' : Kernel} {ptr : Nat} {bytes : List UInt8}
    (guarded : Guarded g k free) (harmless : ∀ i < bytes.length, (ptr + i) % 2 ^ 64 < 2 ^ 47 ∨
      Unmanaged k.mem g.root free (k.deref ((ptr + i) % 2 ^ 64)))
    (run : k.storeBytes ptr bytes = some k') : Filling g k free k' := by
  have preserved : ∀ (s : Kernel) (a : UInt8 × Nat) next, a.2 < bytes.length → Filling g k free s →
      s.storeVirt ((ptr + a.2) % 2 ^ 64) a.1 = some next → Filling g k free next :=
    fun s a next bound filling stored => filling.store guarded.offset stored (harmless a.2 bound)
  refine invariant_on preserved (run_of_foldlM run) ?_ ⟨guarded, fun _ => rfl⟩
  intro a member
  simpa using List.snd_lt_of_mem_zipIdx member

/-! One call after the other. -/

theorem sysWrite_contained {fd buffer size : UInt64} {outcome : Outcome}
    (contained : Contained g s free) (call : s.sysWrite fd buffer size = some (s', outcome)) :
    Contained g s' free ∧ s'.kernel = s.kernel := by
  unfold System.sysWrite at call
  split at call
  · cases call
    exact ⟨contained, rfl⟩
  · simp only [Option.bind_eq_bind, Option.bind_eq_some_iff, Option.pure_def, Option.some.injEq,
      Prod.mk.injEq, Prod.exists] at call
    rcases call with ⟨t, count, printed, rfl, _⟩
    have preserved : ∀ (p : System × Int) (i : Nat) (next : System × Int), True →
        Contained g p.1 free ∧ p.1.kernel = s.kernel →
        (do
          let c ← p.1.kernel.loadVirt ((buffer.toNat + i) % 2 ^ 64)
          let count ← int32 (p.2 + 1)
          return (p.1.print [c], count)) = some next → Contained g next.1 free ∧
            next.1.kernel = s.kernel := by
      intro p i next _ held body
      simp only [Option.bind_eq_bind, Option.bind_eq_some_iff, Option.pure_def,
        Option.some.injEq] at body
      rcases body with ⟨c, _, count, _, rfl⟩
      exact ⟨held.1.print [c], held.2⟩
    exact invariant_on preserved (run_of_foldlM printed) (fun _ _ => trivial) ⟨contained, rfl⟩

theorem sysRead_contained {input : Input} {fd buffer size : UInt64} {outcome : Outcome}
    (contained : Contained g s free) (call : s.sysRead input fd buffer size = some (s', outcome))
    (harmless : fd = 0 ∨ fd = 3 → ∀ i < max size.toNat 1, (buffer.toNat + i) % 2 ^ 64 < 2 ^ 47 ∨
      Unmanaged s.kernel.mem g.root free (s.kernel.deref ((buffer.toNat + i) % 2 ^ 64))) :
    Contained g s' free ∧ ∀ path, pageAt s'.kernel.mem g.root path =
      pageAt s.kernel.mem g.root path := by
  unfold System.sysRead at call
  split at call
  · cases call
    exact ⟨contained, fun _ => rfl⟩
  · rename_i valid
    have harmless := harmless (by tauto)
    simp only [Option.bind_eq_bind, Option.bind_eq_some_iff, Option.pure_def, Option.some.injEq,
      Prod.mk.injEq, Prod.exists] at call
    rcases call with ⟨c, _, k1, stored, k2, length, read, rfl, _⟩
    have start := harmless 0 (by omega)
    rw [Nat.add_zero, Nat.mod_eq_of_lt buffer.toNat_lt] at start
    have offset := contained.kernel.offset
    have first : Filling g s.kernel free k1 :=
      Filling.store ⟨contained.kernel, fun _ => rfl⟩ offset stored start
    have filling := readLoop_filling offset (fun i bound => harmless i (by omega)) first read
    exact ⟨contained.withKernel filling.guarded, filling.pages⟩

theorem sysReadmouse_contained {input : Input} {mouseData : UInt64} {outcome : Outcome}
    (contained : Contained g s free) (call : s.sysReadmouse input mouseData = some (s', outcome))
    (harmless : ∀ i < 11, (mouseData.toNat + i) % 2 ^ 64 < 2 ^ 47 ∨
      Unmanaged s.kernel.mem g.root free (s.kernel.deref ((mouseData.toNat + i) % 2 ^ 64))) :
    Contained g s' free ∧ ∀ path, pageAt s'.kernel.mem g.root path =
      pageAt s.kernel.mem g.root path := by
  simp only [System.sysReadmouse, Option.bind_eq_bind, Option.bind_eq_some_iff, Option.pure_def,
    Option.some.injEq, Prod.mk.injEq] at call
  rcases call with ⟨k, stored, rfl, _⟩
  have size : input.data.bytes.length = 11 := by simp [MouseData.bytes, int32Bytes]
  have filling := storeBytes_filling contained.kernel (size ▸ harmless) stored
  exact ⟨contained.withKernel filling.guarded, filling.pages⟩

theorem sysDrawRectangle_contained {x y width height color : UInt32}
    (contained : Contained g s free)
    (visible : width = 1 ∧ height = 1 → x.toNat < s.framebuffer.width ∧
      y.toNat < s.framebuffer.height) :
    Contained g (s.sysDrawRectangle x y width height color).1 free ∧
      ∀ path, pageAt (s.sysDrawRectangle x y width height color).1.kernel.mem g.root path =
        pageAt s.kernel.mem g.root path := by
  suffices bounds : s.framebuffer.Bounds
      (s.framebuffer.sysDrawRectangle x.toNat y.toNat width.toNat height.toNat color.toNat) by
    rcases contained.draw bounds with ⟨drawn, _, pages⟩
    exact ⟨drawn, pages⟩
  unfold Framebuffer.sysDrawRectangle
  by_cases pixel : width.toNat = 1 ∧ height.toNat = 1
  · simp only [if_pos pixel]
    have inside := visible ⟨UInt32.toNat_inj.mp pixel.1, UInt32.toNat_inj.mp pixel.2⟩
    exact drawPixel_bounds inside.1 inside.2
  · simp only [if_neg pixel]
    exact kdrawRectangle_bounds _ _

theorem sysGwrite_contained {x y color : UInt32} {buffer size : UInt64} {outcome : Outcome}
    (contained : Contained g s free) (call : s.sysGwrite x y color buffer size = some (s', outcome))
    (visible : ∀ i < size.toNat, (x.toNat + 8 * i) % 2 ^ 32 + 8 ≤ s.framebuffer.width ∧
      y.toNat + 8 ≤ s.framebuffer.height) :
    Contained g s' free ∧ ∀ path, pageAt s'.kernel.mem g.root path =
      pageAt s.kernel.mem g.root path := by
  simp only [System.sysGwrite, Option.bind_eq_bind, Option.bind_eq_some_iff, Option.pure_def,
    Option.some.injEq, Prod.mk.injEq] at call
  rcases call with ⟨t, drawn, rfl, _⟩
  have preserved : ∀ (t : System) (i : Nat) (next : System), i < size.toNat →
      (Contained g t free ∧ ∀ path, pageAt t.kernel.mem g.root path =
        pageAt s.kernel.mem g.root path) ∧
        t.framebuffer = s.framebuffer →
      (t.kernel.loadVirt ((buffer.toNat + i) % 2 ^ 64)).bind (fun c =>
        some (t.draw (t.framebuffer.gkprintC
        t.beyond c ((x.toNat + 8 * i) % 2 ^ 32) y.toNat color.toNat))) = some next →
      (Contained g next free ∧ ∀ path, pageAt next.kernel.mem g.root path =
        pageAt s.kernel.mem g.root path) ∧
        next.framebuffer = s.framebuffer := by
    rintro t i next bound ⟨⟨held, pages⟩, same⟩ body
    simp only [Option.bind_eq_some_iff, Option.some.injEq] at body
    rcases body with ⟨c, _, rfl⟩
    have inside := visible i bound
    rw [← same] at inside
    rcases held.draw (gkprintC_bounds t.beyond c inside.1 inside.2) with ⟨drawn, _, still⟩
    exact ⟨⟨drawn, fun path => (still path).trans (pages path)⟩, same⟩
  exact (invariant_on preserved (run_of_foldlM drawn) (fun i member => List.mem_range.mp member)
    ⟨⟨contained, fun _ => rfl⟩, rfl⟩).1

theorem mapUserPages_contained {addresses : List Nat} (write exec : Bool) (pages : List Nat)
    (listed : ∀ a ∈ pages, a ∈ addresses) (contained : Contained g s free)
    (supplied : Supplied UserPath s.kernel g.root free addresses)
    (target : ∀ a ∈ pages, LowerHalf a ∧ g.placed (pageNumber a) ∨
      pageAt s.kernel.mem g.root (indices a) ≠ none) :
    ∃ free', Contained g (pages.foldl (fun t a => t.mapUserPage g.root write exec a) s) free' ∧
      TakesPages g.root s.kernel free
        (pages.foldl (fun t a => t.mapUserPage g.root write exec a) s).kernel free' := by
  induction pages generalizing s free with
  | nil => exact ⟨free, contained, .refl g.root s.kernel free⟩
  | cons a rest ih =>
      rw [List.forall_mem_cons] at listed target
      rcases contained.kernel.vmMap supplied listed.1 true write exec target.1 with
        ⟨k', free', mapped, call, after, later, kept, takes, _⟩
      have page : Contained g (s.mapUserPage g.root write exec a) free' ∧
          (s.mapUserPage g.root write exec a).kernel = k' := by
        simp only [System.mapUserPage, call]
        split
        · exact ⟨contained.withKernel after, rfl⟩
        · exact ⟨(contained.withKernel after).print _, rfl⟩
      rcases page with ⟨held, same⟩
      rw [List.foldl_cons]
      suffices others : ∀ b ∈ rest, LowerHalf b ∧ g.placed (pageNumber b) ∨
          pageAt (s.mapUserPage g.root write exec a).kernel.mem g.root (indices b) ≠ none by
        rcases ih listed.2 held (same ▸ later) others with ⟨last, contained', taken⟩
        exact ⟨last, contained', takes.trans (same ▸ taken)⟩
      intro b member
      refine (target.2 b member).imp_right fun present => ?_
      rw [same]
      cases found : pageAt s.kernel.mem g.root (indices b) with
      | none => exact absurd found present
      | some frame =>
          rw [kept _ _ found]
          exact Option.some_ne_none frame

theorem sysMmap_contained {addr len prot : UInt64} {outcome : Outcome}
    (contained : Contained g s free) (call : s.sysMmap addr len prot = some (s', outcome))
    (supplied : Supplied UserPath s.kernel g.root free (System.regionPages (s.pick addr) len))
    (target : ∀ a ∈ System.regionPages (s.pick addr) len, LowerHalf a ∧ g.placed (pageNumber a) ∨
      pageAt s.kernel.mem g.root (indices a) ≠ none) :
    ∃ free', Contained { g with cursor := (s.advance addr len).addre } s' free' ∧
      TakesPages g.root s.kernel free s'.kernel free' := by
  have same : (s.advance addr len).kernel = s.kernel := by
    unfold System.advance
    split <;> rfl
  have advanced : Contained { g with cursor := (s.advance addr len).addre }
      (s.advance addr len) free := by
    refine ⟨?_, ?_, ?_, rfl⟩
    · rw [same]
      exact { contained.kernel with }
    · unfold System.advance
      split <;> exact contained.screen
    · unfold System.advance
      split <;> exact contained.modules
  rw [s.sysMmap_eq, contained.kernel.active] at call
  split at call
  · simp only [Option.some.injEq, Prod.mk.injEq] at call
    have loop := mapUserPages_contained (prot.toNat.testBit 1) (prot.toNat.testBit 2)
      (System.regionPages (s.pick addr) len) (fun _ member => member) advanced (same ▸ supplied)
        (same ▸ target)
    rwa [System.regionPages, List.foldl_map, call.1, same] at loop
  · cases call

theorem mapStack_provisioned {addresses : List Nat} (is : List Nat) {k : Kernel}
    (ready : Provisioned g addresses k free)
    (listed : ∀ i ∈ is, userStack + 4096 * i ∈ addresses ∧ i < 8) :
    ∃ k' free', is.foldl (fun k i =>
      (k.vmMap k.activeRoot (userStack + 4096 * i) true true false).1) k = k' ∧
      Provisioned g addresses k' free' ∧ TakesPages g.root k free k' free' ∧
      (∀ path page, pageAt k.mem g.root path = some page → pageAt k'.mem g.root path = some page) ∧
      ∀ n, Enough n k g.root free addresses → Enough n k' g.root free' addresses ∧
        ∀ i ∈ is, pageAt k'.mem g.root (indices (userStack + 4096 * i)) ≠ none := by
  induction is generalizing k free with
  | nil => exact ⟨k, free, rfl, ready, .refl g.root k free, fun _ _ found => found, fun n enough =>
      ⟨enough, by simp⟩⟩
  | cons i rest ih =>
      rw [List.forall_mem_cons] at listed
      rcases listed with ⟨⟨member, bound⟩, later⟩
      have lower : LowerHalf (userStack + 4096 * i) := by
        apply lowerHalf_of_lt
        unfold userStack
        omega
      rcases ready.guarded.vmMap ready.supplied member true true false
        (.inl ⟨lower, ready.placed _ member⟩) with ⟨k₁, free₁, mapped, call, after, supplied, kept,
          takes, whole⟩
      rcases ih ⟨after, supplied, ready.placed⟩ later with
        ⟨k', last, run, ready', taken, kept', mapsRest⟩
      refine ⟨k', last, ?_, ready', takes.trans taken, fun path page found =>
        kept' path page (kept path page found), ?_⟩
      · rw [List.foldl_cons, ready.guarded.active, call]
        exact run
      · intro n enough
        rcases whole n enough with ⟨stocked, here⟩
        rcases mapsRest n stocked with ⟨left, mappedRest⟩
        refine ⟨left, List.forall_mem_cons.mpr ⟨?_, mappedRest⟩⟩
        obtain ⟨frame, found⟩ := Option.ne_none_iff_exists'.mp here
        rw [kept' _ _ found]
        exact Option.some_ne_none frame

def StackMapped (root : Nat) (k : Kernel) : Prop :=
  ∀ a ∈ stackAddresses, pageAt k.mem root (indices a) ≠ none

/-- A program starts with its segments and its stack. -/
theorem runProgram_contained {m : Module} (contained : Contained g s free) (low : LinkedLow m.image)
    (supplied : Supplied UserPath s.kernel g.root free m.addresses)
    (placed : ∀ a ∈ m.addresses, g.placed (pageNumber a)) (run : s.runProgram m.image = some s') :
    ∃ free', Contained g s' free' ∧ TakesPages g.root s.kernel free s'.kernel free' ∧
      ∀ n, Enough n s.kernel g.root free m.addresses → StackMapped g.root s'.kernel ∧
        n ≤ free'.length := by
  simp only [System.runProgram, Option.bind_eq_bind, Option.bind_eq_some_iff, Option.pure_def,
    Option.some.injEq] at run
  rcases run with ⟨loader, loaded, rfl⟩
  rcases loadProgram_ready low (fun a member => List.mem_append_left _ member)
    ⟨contained.kernel, supplied, placed⟩ loaded with ⟨free1, ready, loading, stocked⟩
  have stack : ∀ i ∈ List.range 8, userStack + 4096 * i ∈ m.addresses ∧ i < 8 := by
    intro i member
    exact ⟨List.mem_append_right _ (List.mem_map_of_mem member), List.mem_range.mp member⟩
  rcases mapStack_provisioned (List.range 8) ready stack with
    ⟨k', free2, mapped, last, stacking, _, whole⟩
  have after := (contained.withKernel last.guarded).print (loader.log.flatMap LoadEvent.text)
  rw [mapped]
  refine ⟨free2, ⟨after.kernel, after.screen, after.modules, after.cursor⟩,
    loading.trans stacking, ?_⟩
  intro n enough
  rcases whole n (stocked n enough) with ⟨left, pages⟩
  constructor
  · intro a member
    obtain ⟨i, listed, rfl⟩ := List.mem_map.mp member
    exact pages i listed
  · exact Nat.le_trans (Nat.le_add_left n _) left

def FreshLower (root : Nat) (k : Kernel) (free : List Nat) : Prop :=
  ∀ a, LowerHalf a → ∀ frame, pageAt k.mem root (indices a) = some frame → frame ∈ free

/-- A program that has just been started has pages of the free list only. If there was enough memory
it has all of its stack and leaves the rest. -/
structure Started (root : Nat) (m : Module) (k : Kernel) (free free' : List Nat) : Prop where
  fresh : FreshLower root k free
  stack : ∀ n, (demand m.addresses).card + n ≤ free.length → StackMapped root k ∧ n ≤ free'.length

theorem replaceProgram_contained {m : Module} (contained : Contained g s free)
    (member : m ∈ s.modulesList)
    (stocked : (demand m.addresses).card ≤ free.length ∨ Spare UserPath s.kernel g.root)
    (program : ∀ a ∈ m.addresses, placed (pageNumber a)) (run : s.replaceProgram m = some s') :
    ∃ free', Contained { g with placed := placed } s' free' ∧
      TakesPages g.root s.kernel free s'.kernel free' ∧
      Started g.root m s'.kernel free free' := by
  rcases contained.kernel.unmapLowerHalf placed with ⟨k', call, after, supplied, cleared, empty⟩
  rw [System.replaceProgram, contained.kernel.active, call] at run
  rcases runProgram_contained (contained.withKernel after) (contained.modules m member)
    (supplied stocked)
    program run with ⟨free', contained', taken, whole⟩
  refine ⟨free', contained', cleared.trans taken, fun a lower frame reached => ?_,
    fun n enough => whole n (enough_of_demand enough)⟩
  rcases taken.added _ frame reached with before | member
  · rw [pageAt_of_lowerEmpty empty lower] at before
    cases before
  · exact member

theorem findModule_mem {file : Nat} {modules : List Module} {m : Module}
    (found : s.findModule file modules = some (some m)) : m ∈ modules := by
  induction modules with
  | nil => cases found
  | cons head rest ih =>
      rw [System.findModule] at found
      split at found
      · cases found
      · cases found
        exact List.mem_cons_self
      · exact List.mem_cons_of_mem _ (ih found)

theorem sysExec_contained {file : UInt64} {outcome : Outcome} (contained : Contained g s free)
    (call : s.sysExec file = some (s', outcome))
    (stocked : ∀ m, (s.findModule file.toNat s.modulesList).join = some m →
      (demand m.addresses).card ≤ free.length ∨ Spare UserPath s.kernel g.root)
    (program : ∀ m, (s.findModule file.toNat s.modulesList).join = some m →
      ∀ a ∈ m.addresses, placed (pageNumber a))
    (kept : (s.findModule file.toNat s.modulesList).join = none → ∀ p, g.placed p → placed p) :
    ∃ free', Contained { g with placed := placed } s' free' ∧
      TakesPages g.root s.kernel free s'.kernel free' ∧
      ∀ m, (s.findModule file.toNat s.modulesList).join = some m →
        Started g.root m s'.kernel free free' := by
  unfold System.sysExec at call
  split at call
  · cases call
  · rename_i missing
    cases call
    have absent : (s.findModule file.toNat s.modulesList).join = none := by rw [missing]; rfl
    refine ⟨free, contained.weaken (kept absent), .refl g.root s.kernel free, fun m found => ?_⟩
    rw [absent] at found
    cases found
  · rename_i m found
    rw [Option.map_eq_some_iff] at call
    rcases call with ⟨t, run, same⟩
    cases same
    have here : (s.findModule file.toNat s.modulesList).join = some m := by rw [found]; rfl
    rcases replaceProgram_contained contained (findModule_mem found) (stocked m here)
      (program m here) run with
      ⟨free', contained', takes, started⟩
    refine ⟨free', contained', takes, fun m' found' => ?_⟩
    rw [here] at found'
    cases found'
    exact started

theorem sysExit_contained {status : UInt64} {outcome : Outcome} (contained : Contained g s free)
    (call : s.sysExit status = some (s', outcome))
    (stocked : ∀ m, s.modulesList.find? System.isInit = some m →
      (demand m.addresses).card ≤ free.length ∨ Spare UserPath s.kernel g.root)
    (program : ∀ m, s.modulesList.find? System.isInit = some m →
      ∀ a ∈ m.addresses, placed (pageNumber a))
    (kept : s.modulesList.find? System.isInit = none → ∀ p, g.placed p → placed p) :
    ∃ free', Contained { g with placed := placed } s' free' ∧
      TakesPages g.root s.kernel free s'.kernel free' ∧
      ∀ m, s.modulesList.find? System.isInit = some m → Started g.root m s'.kernel free free' := by
  unfold System.sysExit at call
  split at call
  · rename_i missing
    cases call
    refine ⟨free, contained.weaken (kept missing), .refl g.root s.kernel free, fun m found => ?_⟩
    rw [missing] at found
    cases found
  · rename_i m found
    rw [Option.map_eq_some_iff] at call
    rcases call with ⟨t, run, same⟩
    cases same
    rcases replaceProgram_contained contained (List.mem_of_find?_eq_some found) (stocked m found)
      (program m found) run with ⟨free', contained', takes, started⟩
    refine ⟨free', contained', takes, fun m' found' => ?_⟩
    rw [found] at found'
    cases found'
    exact started

theorem clearScreen_bounds (fb : Framebuffer) : fb.Bounds fb.clearScreen := by
  have rows := rows_bounds (x := 0) (y := 0) (r := 0) (g := 0) (b := 0) (le_refl fb.width)
    (le_refl fb.height)
  rw [Nat.zero_mul, Nat.zero_mul] at rows
  rcases Nat.eq_zero_or_pos fb.pitch with none | visible
  · intro screen n _
    simp [Framebuffer.clearScreen, loopValues, none]
  · exact rows visible

theorem clearScreen_contained (input : Input) (contained : Contained g s free) :
    Contained g (s.clearScreen input) free ∧
      (Spare UserPath s.kernel g.root → Spare UserPath (s.clearScreen input).kernel g.root) ∧
      ∀ path, pageAt (s.clearScreen input).kernel.mem g.root path =
        pageAt s.kernel.mem g.root path := by
  rcases contained.draw (clearScreen_bounds s.framebuffer) with ⟨cleared, spare, pages⟩
  have saved : Contained g ((s.draw s.framebuffer.clearScreen).updateSavedPixels 0) free :=
    ⟨cleared.kernel, cleared.screen, cleared.modules, cleared.cursor⟩
  rcases saved.draw (kdrawRectangle_bounds 5 5) with ⟨last, spare', pages'⟩
  exact ⟨last, fun before => spare' (spare before), fun path => (pages' path).trans (pages path)⟩

section Dispatch

variable {input : Input} {nr arg0 arg1 arg2 arg3 arg4 arg5 : UInt64} {outcome : Outcome}

theorem launched_none (runsOn : nr ≠ 3 ∧ nr ≠ 4 ∧ nr ≠ 9) :
    s.launched (.syscall input nr arg0 arg1 arg2 arg3 arg4 arg5) = none := by
  obtain ⟨notExec, notExit, notGexec⟩ := runsOn
  simp [System.launched, notExec, notExit, notGexec]

theorem Contained.parked (contained : Contained g s free) (other : nr ≠ 2) :
    s.cursor (.syscall input nr arg0 arg1 arg2 arg3 arg4 arg5) = g.cursor := by
  rw [System.cursor, if_neg other, contained.cursor]

def CallContained (g : Guard) (s : System) (free : List Nat) (placed : Nat → Prop) (e : UserEvent)
    (s' : System) :
    Prop :=
  ∃ free', Contained { g with placed := placed, cursor := s.cursor e } s' free' ∧
    TakesPages g.root s.kernel free s'.kernel free' ∧
    ∀ m, s.launched e = some m → Started g.root m s'.kernel free free'

theorem Contained.runsOn (contained : Contained g s free) (after : Contained g s' free)
    (pages : ∀ path, pageAt s'.kernel.mem g.root path = pageAt s.kernel.mem g.root path)
    (kept : s.launched (.syscall input nr arg0 arg1 arg2 arg3 arg4 arg5) = none →
      ∀ p, g.placed p → placed p)
    (other : nr ≠ 2 ∧ nr ≠ 3 ∧ nr ≠ 4 ∧ nr ≠ 9) :
    CallContained g s free placed (.syscall input nr arg0 arg1 arg2 arg3 arg4 arg5) s' := by
  have none : s.launched (.syscall input nr arg0 arg1 arg2 arg3 arg4 arg5) = none :=
    launched_none other.2
  refine ⟨free, ?_, .of_pages free pages, fun m found => ?_⟩
  · rw [contained.parked other.1]
    exact after.weaken (kept none)
  · rw [none] at found
    cases found

theorem mmap_dispatched (contained : Contained g s free)
    (call : s.sysMmap arg0 arg1 arg2 = some (s', outcome))
    (mapped : ∀ a ∈ System.regionPages (s.pick arg0) arg1, LowerHalf a ∨
      pageAt s.kernel.mem g.root (indices a) ≠ none)
    (supplied : Supplied UserPath s.kernel g.root free (System.regionPages (s.pick arg0) arg1))
    (kept : ∀ p, g.placed p → placed p)
    (region : ∀ a ∈ System.regionPages (s.pick arg0) arg1, LowerHalf a → placed (pageNumber a)) :
    CallContained g s free placed (.syscall input 2 arg0 arg1 arg2 arg3 arg4 arg5) s' := by
  have target : ∀ a ∈ System.regionPages (s.pick arg0) arg1, LowerHalf a ∧ placed (pageNumber a) ∨
      pageAt s.kernel.mem g.root (indices a) ≠ none := by
    intro a inside
    rcases mapped a inside with lower | present
    · exact .inl ⟨lower, region a inside lower⟩
    · exact .inr present
  rcases sysMmap_contained (contained.weaken kept) call supplied target with ⟨free', after, takes⟩
  refine ⟨free', ?_, takes, fun m found => ?_⟩
  · rw [System.cursor, if_pos rfl]
    exact after
  · rw [launched_none (by decide)] at found
    cases found

theorem gexec_dispatched (contained : Contained g s free)
    (call : (s.clearScreen input).sysExec arg0 = some (s', outcome))
    (launched : ∀ m, ((s.clearScreen input).findModule arg0.toNat s.modulesList).join = some m →
      (demand m.addresses).card ≤ free.length ∨ Spare UserPath s.kernel g.root)
    (program : ∀ m, ((s.clearScreen input).findModule arg0.toNat s.modulesList).join = some m →
      ∀ a ∈ m.addresses, placed (pageNumber a))
    (kept : ((s.clearScreen input).findModule arg0.toNat s.modulesList).join = none →
      ∀ p, g.placed p → placed p) :
    CallContained g s free placed (.syscall input 9 arg0 arg1 arg2 arg3 arg4 arg5) s' := by
  rcases clearScreen_contained input contained with ⟨cleared, spare, pages⟩
  have stocked := fun m found => (launched m found).imp_right spare
  rcases sysExec_contained cleared call stocked program kept with ⟨free', after, takes, started⟩
  refine ⟨free', ?_, (TakesPages.of_pages free pages).trans takes, started⟩
  rw [contained.parked (by decide)]
  exact after

/-- Every call that the handler dispatches keeps what is guarded and takes its pages from the free
list; a program that it starts has no others. -/
theorem syscallHandler_contained {e : UserEvent} (contained : Contained g s free)
    (event : e = .syscall input nr arg0 arg1 arg2 arg3 arg4 arg5)
    (call : s.syscallHandler input nr arg0 arg1 arg2 arg3 arg4 arg5 = some (s', outcome))
    (confined : Confined s free e)
    (kept : s.launched e = none → ∀ p, g.placed p → placed p)
    (region : s.launched e = none → ∀ a ∈ s.mmapped e, LowerHalf a → placed (pageNumber a))
    (program : ∀ m, s.launched e = some m → ∀ a ∈ m.addresses, placed (pageNumber a)) :
    CallContained g s free placed e s' := by
  subst event
  have root := contained.kernel.active
  rcases confined with ⟨mapped, supplied, launched, filled, visible⟩
  rw [root] at supplied
  simp only [root] at mapped launched filled
  cases System.syscallHandler_handled call with
  | write call =>
      rcases sysWrite_contained contained call with ⟨after, same⟩
      exact contained.runsOn after (fun _ => by rw [same]) kept (by decide)
  | read call =>
      have buffer := fun valid i bound => filled _ (by
        rw [UserEvent.filled, if_pos ⟨rfl, valid⟩]
        exact List.mem_map.mpr ⟨i, List.mem_range.mpr bound, rfl⟩)
      rcases sysRead_contained contained call buffer with ⟨after, pages⟩
      exact contained.runsOn after pages kept (by decide)
  | mmap call =>
      rw [System.mmapped, if_pos rfl] at mapped supplied region
      have none : s.launched (.syscall input 2 arg0 arg1 arg2 arg3 arg4 arg5) = none :=
        launched_none (by decide)
      exact mmap_dispatched contained call mapped supplied (kept none) (region none)
  | exec call =>
      rw [CallContained, contained.parked (by decide)]
      exact sysExec_contained contained call launched program kept
  | exit call =>
      rw [CallContained, contained.parked (by decide)]
      exact sysExit_contained contained call launched program kept
  | drawRectangle =>
      rcases sysDrawRectangle_contained contained (visible.1 rfl) with ⟨after, pages⟩
      exact contained.runsOn after pages kept (by decide)
  | readmouse call =>
      have buffer := fun i bound => filled _ (by
        rw [UserEvent.filled, if_neg (by simp), if_pos rfl]
        exact List.mem_map.mpr ⟨i, List.mem_range.mpr bound, rfl⟩)
      rcases sysReadmouse_contained contained call buffer with ⟨after, pages⟩
      exact contained.runsOn after pages kept (by decide)
  | updateSavedPixels =>
      have saved : Contained g (s.updateSavedPixels arg0.toUInt32) free :=
        ⟨contained.kernel, contained.screen, contained.modules, contained.cursor⟩
      exact contained.runsOn saved (fun _ => rfl) kept (by decide)
  | gwrite call =>
      rcases sysGwrite_contained contained call (visible.2 rfl) with ⟨after, pages⟩
      exact contained.runsOn after pages kept (by decide)
  | gexec call => exact gexec_dispatched contained call launched program kept
  | unknown other =>
      simp only [List.mem_cons, List.not_mem_nil, or_false, not_or] at other
      exact contained.runsOn contained (fun _ => rfl) kept (by tauto)

end Dispatch

/-- One event keeps what is guarded and takes its pages from the free list. -/
theorem userStep_takes {e : UserEvent} (contained : Contained g s free) (step : UserStep s e s')
    (confined : Confined s free e)
    (kept : s.launched e = none → ∀ p, g.placed p → placed p)
    (region : s.launched e = none → ∀ a ∈ s.mmapped e, LowerHalf a → placed (pageNumber a))
    (program : ∀ m, s.launched e = some m → ∀ a ∈ m.addresses, placed (pageNumber a)) :
    ∃ free', Contained { g with placed := placed, cursor := s.cursor e } s' free' ∧
      TakesPages g.root s.kernel free s'.kernel free' ∧
      ∀ m, s.launched e = some m → Started g.root m s'.kernel free free' := by
  cases step with
  | @store k address byte low stored =>
      rcases contained.kernel.storeVirt stored (.inl low) with ⟨after, same, _⟩
      have still : s.cursor (.store address byte) = g.cursor := contained.cursor
      rw [still]
      refine ⟨free, (contained.withKernel after).weaken (kept rfl), .of_pages free same,
        fun m found => ?_⟩
      cases found
  | syscall call => exact syscallHandler_contained contained rfl call confined kept region program

theorem userStep_contained {e : UserEvent} (contained : Contained g s free) (step : UserStep s e s')
    (confined : Confined s free e)
    (kept : s.launched e = none → ∀ p, g.placed p → placed p)
    (region : s.launched e = none → ∀ a ∈ s.mmapped e, LowerHalf a → placed (pageNumber a))
    (program : ∀ m, s.launched e = some m → ∀ a ∈ m.addresses, placed (pageNumber a)) :
    ∃ free', Contained { g with placed := placed, cursor := s.cursor e } s' free' := by
  rcases userStep_takes contained step confined kept region program with ⟨free', after, _⟩
  exact ⟨free', after⟩

def System.ScreenApart (s : System) (free : List Nat) : Prop :=
  ∀ i < s.framebuffer.height * s.framebuffer.pitch, 4096 ≤ s.kernel.deref s.framebufferAddr + i ∧
    Unmanaged s.kernel.mem s.kernel.activeRoot free (s.kernel.deref s.framebufferAddr + i)

structure System.Prepared (s : System) (free : List Nat) : Prop where
  wellFormed : WellFormed UserPath s.kernel s.kernel.activeRoot free
  small : SlotsHold SmallLower s.kernel.mem s.kernel.activeRoot
  screen : s.ScreenApart free
  modules : ∀ m ∈ s.modulesList, LinkedLow m.image

/-- What a run from `s` keeps, for the pages placed so far and the cursor. -/
def System.guard (s : System) (placed : Nat → Prop) (cursor : UInt64) : Guard where
  root := s.kernel.activeRoot
  offset := s.kernel.virtualOffset
  higher := walk s.kernel.mem s.kernel.activeRoot
  device := fun n => ∃ i < s.framebuffer.height * s.framebuffer.pitch,
    n = s.kernel.deref s.framebufferAddr + i
  placed := placed
  cursor := cursor

theorem System.Prepared.contained (prepared : s.Prepared free)
    (mapped : ∀ v, LowerHalf v → walk s.kernel.mem s.kernel.activeRoot v ≠ none →
      placed (pageNumber v)) :
    Contained (s.guard placed s.addre) s free := by
  refine ⟨⟨prepared.wellFormed, prepared.small, rfl, rfl, fun _ _ => rfl, mapped, ?_⟩,
    fun i bound => ⟨i, bound, rfl⟩, prepared.modules, rfl⟩
  rintro n ⟨i, bound, rfl⟩
  exact prepared.screen i bound

end Steps

theorem bare_screen : bareSystem.ScreenApart barePages := by
  intro i bound
  have place : bareSystem.kernel.deref bareSystem.framebufferAddr = 0xFD000000 := by decide
  have size : bareSystem.framebuffer.height * bareSystem.framebuffer.pitch = 120000 := by decide
  rw [size] at bound
  rw [place]
  refine ⟨by omega, ?_, ?_⟩
  · have low : ∀ page ∈ barePages, page + 4096 ≤ 0xFD000000 := by decide
    intro page member
    have := low page member
    omega
  · intro path table _ reached
    have root := (bare_pageAt reached).2
    omega

def mapEvent (address : UInt64) : UserEvent :=
  .syscall ⟨[], ⟨100, 100, false, false, false⟩⟩ 2 address 0 3 0 0 0

theorem bare_mapEvent (address : UInt64) (explicit : address ≠ 0)
    (one : System.pageCount address 0 = 1) :
    ∃ s' free frame, UserStep bareSystem (mapEvent address) s' ∧
      Extends (fun _ => True) 0x1000 (indices (System.startPage address).toNat) true true false
        bareKernel barePages s'.kernel free ∧
      pageAt s'.kernel.mem 0x1000 (indices (System.startPage address).toNat) = some frame ∧
      s'.addre = 0x60000000 := by
  rcases bare_vmMap (System.startPage address).toNat true true false with
    ⟨k, free, frame, call, grown, mapped⟩
  have picked : bareSystem.pick address = address := if_neg explicit
  have active : bareSystem.kernel.activeRoot = 0x1000 := by decide
  have page := bareSystem.sysMmap_page address 0 3 (by rw [picked]; exact one)
  have advanced : bareSystem.advance address 0 = bareSystem := if_neg explicit
  have bits : (3 : UInt64).toNat.testBit 1 = true ∧ (3 : UInt64).toNat.testBit 2 = false := by
    decide
  have result : bareSystem.mapUserPage 0x1000 true false (System.startPage address).toNat =
      { bareSystem with kernel := k } := System.mapUserPage_mapped call
  rw [picked, active, advanced, bits.1, bits.2, result] at page
  exact ⟨{ bareSystem with kernel := k }, free, frame,
    .syscall ((bareSystem.syscallHandler_mmap _ address 0 3 0 0 0).trans page), grown, mapped, rfl⟩

theorem bare_spare : Spare UserPath bareKernel 0x1000 := by
  refine .inr ⟨by decide, fun path _ reached => ?_⟩
  cases (bare_pageAt reached).2

theorem bareSystem_root : bareSystem.kernel.activeRoot = 0x1000 := by decide

theorem bareSystem_prepared : bareSystem.Prepared barePages where
  wellFormed := by
    rw [bareSystem_root]
    exact bare_wellFormed fun _ short => .inl short
  small := by
    rw [bareSystem_root]
    exact smallLower_of_empty bare_empty
  screen := bare_screen
  modules := by
    intro m member
    cases member

theorem bare_confined : Confined bareSystem barePages (mapEvent 0x400000) := by
  have pages : bareSystem.mmapped (mapEvent 0x400000) = [0x400000] := by decide
  refine ⟨?_, ?_, ?_, ?_, ?_⟩
  · rw [pages]
    intro a member
    rw [List.mem_singleton.mp member]
    exact .inl (lowerHalf_of_lt (by decide))
  · rw [bareSystem_root]
    exact .inr bare_spare
  · intro m launched
    cases launched
  · intro v member
    cases member
  · refine ⟨?_, ?_⟩
    · intro number
      cases number
    · intro number
      cases number

end PaintKernel
