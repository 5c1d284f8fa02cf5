import Mathlib
import PaintKernel.Library.BitFields

set_option autoImplicit false

/-! Interrupt gates and segment descriptors. -/

namespace PaintKernel

open ByteMemory BitFields

namespace IdtEntry

def offset0 : Field := ⟨0, 16⟩
def selector : Field := ⟨16, 16⟩
def ist : Field := ⟨32, 3⟩
def type : Field := ⟨40, 4⟩
def dpl : Field := ⟨45, 2⟩
def present : Field := ⟨47, 1⟩
def offset1 : Field := ⟨48, 16⟩
def offset2 : Field := ⟨64, 32⟩

/-- All fields of the structure in the order of their declaration, the unused ones too. -/
def widths : List Nat := [16, 16, 3, 5, 4, 1, 2, 1, 16, 32, 32]

end IdtEntry

def idtEntrySize : Nat := 16
def kernelCodeSelector : Nat := 0x28
def kernelDataSelector : Nat := 0x30
def userCodeSelector : Nat := 0x38
def userDataSelector : Nat := 0x40
def tssSelector : Nat := 0x48
def idtTypeInterrupt : UInt8 := 0xE
def idtTypeTrap : UInt8 := 0xF

def handlerFields (fn : UInt64) (type : UInt8) : List (Field × Nat) :=
  let f := fn
  let offset0 : UInt16 := (0xffff &&& f).toUInt16
  let f := f >>> 16
  let offset1 : UInt16 := (0xffff &&& f).toUInt16
  let f := f >>> 16
  let offset2 : UInt32 := (0xffffffff &&& f).toUInt32
  [(IdtEntry.offset0, offset0.toNat), (IdtEntry.offset1, offset1.toNat),
    (IdtEntry.offset2, offset2.toNat),
    (IdtEntry.type, type.toNat), (IdtEntry.present, 1), (IdtEntry.dpl, 3), (IdtEntry.ist, 0),
    (IdtEntry.selector, kernelCodeSelector)]

def idtSetHandler (idt : Mem) (index : UInt8) (fn : UInt64) (type : UInt8) : Mem :=
  assign idt (idtEntrySize * index.toNat) (handlerFields fn type)

structure Gate where
  handler : Nat
  selector : Nat
  ist : Nat
  type : Nat
  dpl : Nat
  present : Nat
deriving DecidableEq

def gateAt (idt : Mem) (index : UInt8) : Gate :=
  let entry := idtEntrySize * index.toNat
  { handler := get idt entry IdtEntry.offset0 + get idt entry IdtEntry.offset1 * 2 ^ 16 +
      get idt entry IdtEntry.offset2 * 2 ^ 32
    selector := get idt entry IdtEntry.selector
    ist := get idt entry IdtEntry.ist
    type := get idt entry IdtEntry.type
    dpl := get idt entry IdtEntry.dpl
    present := get idt entry IdtEntry.present }

theorem handlerFields_distinct (fn : UInt64) (type : UInt8) :
    ((handlerFields fn type).map Prod.fst).Nodup := by
  have distinct : [IdtEntry.offset0, IdtEntry.offset1, IdtEntry.offset2, IdtEntry.type,
      IdtEntry.present,
    IdtEntry.dpl, IdtEntry.ist, IdtEntry.selector].Nodup := by decide
  exact distinct

theorem handlerFields_among (fn : UInt64) (type : UInt8) :
    (handlerFields fn type).map Prod.fst ⊆ packed 0 IdtEntry.widths := by
  have among : [IdtEntry.offset0, IdtEntry.offset1, IdtEntry.offset2, IdtEntry.type,
      IdtEntry.present,
    IdtEntry.dpl, IdtEntry.ist, IdtEntry.selector] ⊆ packed 0 IdtEntry.widths := by decide
  exact among

theorem address_split (f : UInt64) :
    ((0xffff : UInt64) &&& f).toUInt16.toNat % 2 ^ 16 +
      ((0xffff : UInt64) &&& f >>> 16).toUInt16.toNat % 2 ^ 16 * 2 ^ 16 +
      ((0xffffffff : UInt64) &&& f >>> 16 >>> 16).toUInt32.toNat % 2 ^ 32 * 2 ^ 32 = f.toNat := by
  have low (x : UInt64) : (0xffff &&& x).toNat = x.toNat % 2 ^ 16 := by
    rw [UInt64.toNat_and, Nat.and_comm]
    exact Nat.and_two_pow_sub_one_eq_mod x.toNat 16
  have word (x : UInt64) : (0xffffffff &&& x).toNat = x.toNat % 2 ^ 32 := by
    rw [UInt64.toNat_and, Nat.and_comm]
    exact Nat.and_two_pow_sub_one_eq_mod x.toNat 32
  have shifted (x : UInt64) : (x >>> 16).toNat = x.toNat / 2 ^ 16 := by
    rw [UInt64.toNat_shiftRight]
    exact Nat.shiftRight_eq_div_pow x.toNat 16
  rw [UInt64.toNat_toUInt16, UInt64.toNat_toUInt16, UInt64.toNat_toUInt32, low, low, word,
    shifted (f >>> 16), shifted f]
  have bound := f.toNat_lt
  omega

theorem idtSetHandler_gate (idt : Mem) (index : UInt8) (fn : UInt64) (type : UInt8) :
    gateAt (idtSetHandler idt index fn type) index =
      { handler := fn.toNat, selector := kernelCodeSelector, ist := 0,
        type := type.toNat % 2 ^ 4, dpl := 3,
        present := 1 } := by
  have stored (i : Nat) {f : Field} {value : Nat} (field : (handlerFields fn type)[i]? =
      some (f, value)) :
      get (idtSetHandler idt index fn type) (idtEntrySize * index.toNat) f = value % 2 ^ f.width :=
    get_assign_packed idt _ (handlerFields_distinct fn type) (handlerFields_among fn type)
      (List.mem_of_getElem? field)
  have address :=
    (congrArg₂ (· + ·) (congrArg₂ (· + ·) (stored 0 rfl) (congrArg (· * 2 ^ 16) (stored 1 rfl)))
    (congrArg (· * 2 ^ 32) (stored 2 rfl))).trans (address_split fn)
  rw [Gate.mk.injEq]
  exact ⟨address, stored 7 rfl, stored 6 rfl, stored 3 rfl, stored 5 rfl, stored 4 rfl⟩

theorem idtSetHandler_outside (idt : Mem) (index : UInt8) (fn : UInt64) (type : UInt8) :
    AgreeOutside idt (idtSetHandler idt index fn type) (idtEntrySize * index.toNat) idtEntrySize :=
  assign_packed_outside idt _ (handlerFields_among fn type) rfl

def EntryUnchanged (idt idt' : Mem) (index : UInt8) : Prop :=
  ∀ i < idtEntrySize, idt' (idtEntrySize * index.toNat + i) = idt (idtEntrySize * index.toNat + i)

theorem idtSetHandler_other (idt : Mem) {index other : UInt8} (different : other ≠ index)
    (fn : UInt64) (type : UInt8) :
    EntryUnchanged idt (idtSetHandler idt index fn type) other := by
  have places : other.toNat ≠ index.toNat := fun same => different (UInt8.toNat_inj.mp same)
  intro i inside
  apply idtSetHandler_outside
  unfold idtEntrySize at inside ⊢
  omega

/-! Setting up the interrupt descriptor table. -/

inductive InterruptHandler where
  | divideErrorHandler | debugExceptionHandler | nmiInterruptHandler | breakpointHandler
  | overflowHandler | boundRangeExceededHandler | invalidOpcodeHandler | deviceNotAvailableHandler
  | doubleFaultHandlerEc | coprocessorSegmentOverrunHandler | invalidTssHandlerEc
  | segmentNotPresentHandlerEc | stackSegmentFaultHandlerEc | generalProtectionHandlerEc
  | pageFaultHandlerEc | genericHandler | x87FpuFloatingPointErrorHandler
  | alignmentCheckHandlerEc | machineCheckHandler | simdFloatingPointExceptionHandler
  | virtualizationExceptionHandler | controlProtectionExceptionHandlerEc | irq1InterruptHandler
  | irq12InterruptHandler | syscallEntry
deriving DecidableEq

structure InterruptVector where
  index : UInt8
  fn : InterruptHandler
  type : UInt8

def vectors : List InterruptVector :=
  [⟨0, .divideErrorHandler, idtTypeInterrupt⟩,
    ⟨1, .debugExceptionHandler, idtTypeInterrupt⟩,
    ⟨2, .nmiInterruptHandler, idtTypeInterrupt⟩,
    ⟨3, .breakpointHandler, idtTypeTrap⟩,
    ⟨4, .overflowHandler, idtTypeTrap⟩,
    ⟨5, .boundRangeExceededHandler, idtTypeInterrupt⟩,
    ⟨6, .invalidOpcodeHandler, idtTypeInterrupt⟩,
    ⟨7, .deviceNotAvailableHandler, idtTypeInterrupt⟩,
    ⟨8, .doubleFaultHandlerEc, idtTypeInterrupt⟩,
    ⟨9, .coprocessorSegmentOverrunHandler, idtTypeInterrupt⟩,
    ⟨10, .invalidTssHandlerEc, idtTypeInterrupt⟩,
    ⟨11, .segmentNotPresentHandlerEc, idtTypeInterrupt⟩,
    ⟨12, .stackSegmentFaultHandlerEc, idtTypeInterrupt⟩,
    ⟨13, .generalProtectionHandlerEc, idtTypeInterrupt⟩,
    ⟨14, .pageFaultHandlerEc, idtTypeInterrupt⟩,
    ⟨15, .genericHandler, idtTypeInterrupt⟩,
    ⟨16, .x87FpuFloatingPointErrorHandler, idtTypeInterrupt⟩,
    ⟨17, .alignmentCheckHandlerEc, idtTypeInterrupt⟩,
    ⟨18, .machineCheckHandler, idtTypeInterrupt⟩,
    ⟨19, .simdFloatingPointExceptionHandler, idtTypeInterrupt⟩,
    ⟨20, .virtualizationExceptionHandler, idtTypeInterrupt⟩,
    ⟨21, .controlProtectionExceptionHandlerEc, idtTypeInterrupt⟩,
    ⟨0x21, .irq1InterruptHandler, idtTypeInterrupt⟩,
    ⟨0x2c, .irq12InterruptHandler, idtTypeInterrupt⟩,
    ⟨0x80, .syscallEntry, idtTypeTrap⟩]

def setHandlers (address : InterruptHandler → UInt64) (idt : Mem)
    (vectors : List InterruptVector) : Mem :=
  vectors.foldl (fun idt v => idtSetHandler idt v.index (address v.fn) v.type) idt

/-- The link addresses of the handlers are a parameter. -/
def idtSetup (address : InterruptHandler → UInt64) (idt : Mem) : Mem :=
  setHandlers address (fill idt 0 4096 0) vectors

theorem gateAt_congr {idt idt' : Mem} {index : UInt8} (unchanged : EntryUnchanged idt idt' index) :
    gateAt idt' index = gateAt idt index := by
  have field {f : Field} (member : f ∈ packed 0 IdtEntry.widths) :
      get idt' (idtEntrySize * index.toNat) f = get idt (idtEntrySize * index.toNat) f :=
    get_packed_congr member rfl unchanged
  simp (disch := decide) only [gateAt, field]

theorem setHandlers_other (address : InterruptHandler → UInt64) (idt : Mem)
    {vectors : List InterruptVector} {other : UInt8} (absent : ∀ v ∈ vectors, other ≠ v.index) :
    gateAt (setHandlers address idt vectors) other = gateAt idt other := by
  induction vectors generalizing idt with
  | nil => rfl
  | cons v vectors ih =>
      rw [List.forall_mem_cons] at absent
      calc
        gateAt (setHandlers address idt (v :: vectors)) other
            = gateAt (idtSetHandler idt v.index (address v.fn) v.type) other := ih _ absent.2
        _ = gateAt idt other := gateAt_congr (idtSetHandler_other idt absent.1 _ _)

theorem setHandlers_gate (address : InterruptHandler → UInt64) (idt : Mem)
    {vectors : List InterruptVector} (distinct : (vectors.map InterruptVector.index).Nodup)
    {v : InterruptVector} (member : v ∈ vectors) :
    gateAt (setHandlers address idt vectors) v.index =
      { handler := (address v.fn).toNat, selector := kernelCodeSelector, ist := 0,
        type := v.type.toNat % 2 ^ 4,
        dpl := 3, present := 1 } := by
  induction vectors generalizing idt with
  | nil => cases member
  | cons w vectors ih =>
      rw [List.map_cons, List.nodup_cons] at distinct
      rcases List.mem_cons.mp member with rfl | later
      · rw [← idtSetHandler_gate idt v.index (address v.fn) v.type]
        apply setHandlers_other _ (idtSetHandler idt v.index (address v.fn) v.type)
        intro w later same
        exact distinct.1 (same ▸ List.mem_map_of_mem later)
      · exact ih _ distinct.2 later

theorem vectors_types : ∀ v ∈ vectors, v.type.toNat % 2 ^ 4 = v.type.toNat := by decide

/-- After the set up every vector leads to its handler and every other entry of the table is absent.
-/
theorem idtSetup_gate (address : InterruptHandler → UInt64) (idt : Mem) (index : UInt8) :
    (∀ v ∈ vectors, v.index = index → gateAt (idtSetup address idt) index =
      { handler := (address v.fn).toNat, selector := kernelCodeSelector, ist := 0,
        type := v.type.toNat, dpl := 3,
        present := 1 }) ∧
    ((∀ v ∈ vectors, index ≠ v.index) → gateAt (idtSetup address idt) index =
      { handler := 0, selector := 0, ist := 0, type := 0, dpl := 0, present := 0 }) := by
  constructor
  · intro v member here
    rw [← here, idtSetup, setHandlers_gate address _ (by decide) member, vectors_types v member]
  · intro absent
    rw [idtSetup, setHandlers_other address _ absent]
    have zero {f : Field} (member : f ∈ packed 0 IdtEntry.widths) :
        get (fill idt 0 4096 0) (idtEntrySize * index.toNat) f = 0 := by
      apply get_packed_zero member (rfl : _ = 8 * 16)
      intro i inside
      have bound := index.toNat_lt
      exact if_pos (by unfold idtEntrySize; omega)
    simp (disch := decide) only [gateAt, zero, Nat.zero_mul]

/-! The global descriptor table. -/

def maxGdtSize : Nat := 256
def segDescriptorSize : Nat := 8
def sysDescriptorSize : Nat := 16

namespace SegDescriptor

def widths : List Nat := [16, 24, 8, 4, 4, 8]
def access : Field := ⟨40, 8⟩
def flags : Field := ⟨52, 4⟩

end SegDescriptor

namespace SysDescriptor

def widths : List Nat := [16, 24, 8, 4, 4, 40, 32]
def limit0 : Field := ⟨0, 16⟩
def base0 : Field := ⟨16, 24⟩
def access : Field := ⟨40, 8⟩
def limit1 : Field := ⟨48, 4⟩
def base1 : Field := ⟨56, 40⟩

end SysDescriptor

def sizeofTss : Nat := 4 + 3 * 8 + 8 + 7 * 8 + 8 + 2 + 2

structure Gdt where
  bytes : Mem
  size : Nat

/-- A descriptor is zeroed before its fields are stored. -/
def createDescriptor (g : Gdt) (offset : UInt16) (size : Nat)
    (values : List (Field × Nat)) : Gdt where
  bytes := assign (fill g.bytes offset.toNat size 0) offset.toNat values
  size := if g.size < offset.toNat + size then offset.toNat + size else g.size

def gdtCodeDescriptor (g : Gdt) (offset : UInt16) (user : Bool) : Gdt :=
  createDescriptor g offset segDescriptorSize
    [(SegDescriptor.access, 0x9A ||| if user then 0x60 else 0), (SegDescriptor.flags, 0x2)]

def gdtDataDescriptor (g : Gdt) (offset : UInt16) (user : Bool) : Gdt :=
  createDescriptor g offset segDescriptorSize
    [(SegDescriptor.access, 0x92 ||| if user then 0x60 else 0)]

def tssFields (tss : UInt64) : List (Field × Nat) :=
  [(SysDescriptor.base0, tss.toNat), (SysDescriptor.base1, (tss >>> 24).toNat),
    (SysDescriptor.limit0, sizeofTss),
    (SysDescriptor.limit1, sizeofTss >>> 16), (SysDescriptor.access, 0x89)]

def gdtTssDescriptor (g : Gdt) (offset : UInt16) (tss : UInt64) : Gdt :=
  createDescriptor g offset sysDescriptorSize (tssFields tss)

variable {g : Gdt} {offset : UInt16} {size : Nat} {values : List (Field × Nat)} {widths : List Nat}

theorem createDescriptor_size (g : Gdt) (offset : UInt16) (size : Nat)
    (values : List (Field × Nat)) :
    (createDescriptor g offset size values).size = max g.size (offset.toNat + size) := by
  calc
    (createDescriptor g offset size values).size =
        if g.size < offset.toNat + size then offset.toNat + size else g.size := rfl
    _ = max g.size (offset.toNat + size) := by
      rw [max_def]
      split_ifs <;> omega

theorem createDescriptor_here {f : Field} {value : Nat} (g : Gdt) (offset : UInt16) (size : Nat)
    (distinct : (values.map Prod.fst).Nodup) (among : values.map Prod.fst ⊆ packed 0 widths)
    (member : (f, value) ∈ values) :
    get (createDescriptor g offset size values).bytes offset.toNat f = value % 2 ^ f.width :=
  get_assign_packed _ offset.toNat distinct among member

theorem createDescriptor_outside (g : Gdt) (offset : UInt16)
    (among : values.map Prod.fst ⊆ packed 0 widths) (total : widths.sum = 8 * size) :
    AgreeOutside g.bytes (createDescriptor g offset size values).bytes offset.toNat size := by
  intro n outside
  calc
    assign (fill g.bytes offset.toNat size 0) offset.toNat values n =
      fill g.bytes offset.toNat size 0 n :=
      assign_packed_outside _ _ among total n outside
    _ = g.bytes n := fill_agreeOutside g.bytes offset.toNat size 0 n outside

theorem tssFields_distinct (tss : UInt64) : ((tssFields tss).map Prod.fst).Nodup := by
  have distinct : [SysDescriptor.base0, SysDescriptor.base1, SysDescriptor.limit0,
      SysDescriptor.limit1,
    SysDescriptor.access].Nodup := by decide
  exact distinct

theorem tssFields_among (tss : UInt64) :
    (tssFields tss).map Prod.fst ⊆ packed 0 SysDescriptor.widths := by
  have among : [SysDescriptor.base0, SysDescriptor.base1, SysDescriptor.limit0,
      SysDescriptor.limit1,
    SysDescriptor.access] ⊆ packed 0 SysDescriptor.widths := by decide
  exact among

structure Segment where
  base : Nat
  limit : Nat
  access : Nat
deriving DecidableEq

def segmentAt (gdt : Mem) (offset : Nat) : Segment where
  base := get gdt offset SysDescriptor.base0 + get gdt offset SysDescriptor.base1 * 2 ^ 24
  limit := get gdt offset SysDescriptor.limit0 + get gdt offset SysDescriptor.limit1 * 2 ^ 16
  access := get gdt offset SysDescriptor.access

theorem gdtTssDescriptor_segment (g : Gdt) (offset : UInt16) (tss : UInt64) :
    segmentAt (gdtTssDescriptor g offset tss).bytes offset.toNat =
      { base := tss.toNat, limit := sizeofTss, access := 0x89 } := by
  have stored (i : Nat) {f : Field} {value : Nat} (field : (tssFields tss)[i]? = some (f, value)) :
      get (gdtTssDescriptor g offset tss).bytes offset.toNat f = value % 2 ^ f.width :=
    createDescriptor_here g offset _ (tssFields_distinct tss) (tssFields_among tss)
      (List.mem_of_getElem? field)
  have base : get (gdtTssDescriptor g offset tss).bytes offset.toNat SysDescriptor.base0 +
      get (gdtTssDescriptor g offset tss).bytes offset.toNat SysDescriptor.base1 * 2 ^ 24 =
        tss.toNat := by
    have shifted : (tss >>> 24).toNat = tss.toNat / 2 ^ 24 := by
      rw [UInt64.toNat_shiftRight]
      exact Nat.shiftRight_eq_div_pow tss.toNat 24
    rw [stored 0 rfl, stored 1 rfl, shifted]
    have bound := tss.toNat_lt
    simp only [SysDescriptor.base0, SysDescriptor.base1]
    omega
  rw [segmentAt, base, stored 2 rfl, stored 3 rfl, stored 4 rfl]
  rfl

theorem gdtTssDescriptor_outside (g : Gdt) (offset : UInt16) (tss : UInt64) :
    AgreeOutside g.bytes (gdtTssDescriptor g offset tss).bytes offset.toNat sysDescriptorSize :=
  createDescriptor_outside g offset (tssFields_among tss) rfl

/-- The processor decodes what the encoders store: the address of the handler in the gate, whose
type is the low four bits of the argument, and the address of the task state segment in the
descriptor. Nothing else changes. -/
theorem descriptors_decode (idt : Mem) (index : UInt8) (fn : UInt64) (type : UInt8) (g : Gdt)
    (offset : UInt16) (tss : UInt64) :
    ((gateAt (idtSetHandler idt index fn type) index).handler = fn.toNat ∧
      (gateAt (idtSetHandler idt index fn type) index).present = 1 ∧
      (gateAt (idtSetHandler idt index fn type) index).type = type.toNat % 16 ∧
      ∀ other ≠ index, EntryUnchanged idt (idtSetHandler idt index fn type) other) ∧
    (offset.toNat + sysDescriptorSize ≤ maxGdtSize →
      (segmentAt (gdtTssDescriptor g offset tss).bytes offset.toNat).base = tss.toNat ∧
      AgreeOutside g.bytes (gdtTssDescriptor g offset tss).bytes offset.toNat sysDescriptorSize ∧
      offset.toNat + sysDescriptorSize ≤ (gdtTssDescriptor g offset tss).size ∧
      g.size ≤ (gdtTssDescriptor g offset tss).size) := by
  constructor
  · rw [idtSetHandler_gate]
    exact ⟨rfl, rfl, rfl, fun other different => idtSetHandler_other idt different fn type⟩
  · intro _
    have grown : (gdtTssDescriptor g offset tss).size =
        max g.size (offset.toNat + sysDescriptorSize) :=
      createDescriptor_size g offset sysDescriptorSize (tssFields tss)
    rw [gdtTssDescriptor_segment, grown]
    exact ⟨rfl, gdtTssDescriptor_outside g offset tss, le_max_right _ _, le_max_left _ _⟩

theorem descriptors_decode_tss :
    (gateAt (idtSetHandler (fun _ => 0) 14 0xFFFFFFFF80123456 idtTypeInterrupt) 14).handler =
      0xFFFFFFFF80123456 ∧
      (segmentAt (gdtTssDescriptor ⟨fun _ => 0, 0⟩ 0x48 0xFFFFFFFF80ABCDE0).bytes 0x48).base =
        0xFFFFFFFF80ABCDE0 :=
  have decoded := descriptors_decode (fun _ => 0) 14 0xFFFFFFFF80123456 idtTypeInterrupt
    ⟨fun _ => 0, 0⟩ 0x48
    0xFFFFFFFF80ABCDE0
  ⟨decoded.1.1, (decoded.2 (by decide)).1⟩

/-- A type of more than four bits does not come back. -/
theorem idtSetHandler_wide_type :
    (gateAt (idtSetHandler (fun _ => 0) 3 0xFFFFFFFF80123456 16) 3).type ≠
    (16 : UInt8).toNat := by
  rw [idtSetHandler_gate]
  decide

def gdtSetup (tss : UInt64) (g : Gdt) : Gdt :=
  let g : Gdt := { g with bytes := fill g.bytes 0 maxGdtSize 0 }
  let g := gdtCodeDescriptor g (UInt16.ofNat kernelCodeSelector) false
  let g := gdtDataDescriptor g (UInt16.ofNat kernelDataSelector) false
  let g := gdtCodeDescriptor g (UInt16.ofNat userCodeSelector) true
  let g := gdtDataDescriptor g (UInt16.ofNat userDataSelector) true
  gdtTssDescriptor g (UInt16.ofNat tssSelector) tss

theorem createDescriptor_elsewhere {f : Field} {base : Nat}
    (among : values.map Prod.fst ⊆ packed 0 widths) (total : widths.sum = 8 * size)
    (member : f ∈ packed 0 SegDescriptor.widths)
    (apart : base + segDescriptorSize ≤ offset.toNat ∨ offset.toNat + size ≤ base) :
    get (createDescriptor g offset size values).bytes base f = get g.bytes base f := by
  apply get_packed_congr member (rfl : _ = 8 * segDescriptorSize)
  intro i inside
  apply createDescriptor_outside g offset among total
  omega

theorem codeFields_among (user : Bool) :
    [(SegDescriptor.access, 0x9A ||| if user then 0x60 else 0),
      (SegDescriptor.flags, 0x2)].map Prod.fst ⊆
      packed 0 SegDescriptor.widths := by
  cases user <;> decide

theorem dataFields_among (user : Bool) :
    [(SegDescriptor.access, 0x92 ||| if user then 0x60 else 0)].map Prod.fst ⊆
      packed 0 SegDescriptor.widths := by
  cases user <;> decide

section Access

variable {user : Bool} {base : Nat}

theorem gdtCodeDescriptor_here (g : Gdt) (offset : UInt16) (user : Bool) :
    get (gdtCodeDescriptor g offset user).bytes offset.toNat SegDescriptor.access =
      if user then 0xFA else 0x9A := by
  have distinct : [SegDescriptor.access, SegDescriptor.flags].Nodup := by decide
  calc
    get (gdtCodeDescriptor g offset user).bytes offset.toNat SegDescriptor.access =
        (0x9A ||| if user then 0x60 else 0) % 2 ^ 8 :=
      createDescriptor_here g offset _ distinct (codeFields_among user) List.mem_cons_self
    _ = if user then 0xFA else 0x9A := by cases user <;> rfl

theorem gdtDataDescriptor_here (g : Gdt) (offset : UInt16) (user : Bool) :
    get (gdtDataDescriptor g offset user).bytes offset.toNat SegDescriptor.access =
      if user then 0xF2 else 0x92 := by
  calc
    get (gdtDataDescriptor g offset user).bytes offset.toNat SegDescriptor.access =
        (0x92 ||| if user then 0x60 else 0) % 2 ^ 8 :=
      createDescriptor_here g offset _ (List.nodup_singleton _) (dataFields_among user)
        List.mem_cons_self
    _ = if user then 0xF2 else 0x92 := by cases user <;> rfl

theorem gdtCodeDescriptor_elsewhere
    (apart : base + segDescriptorSize ≤ offset.toNat ∨ offset.toNat + segDescriptorSize ≤ base) :
    get (gdtCodeDescriptor g offset user).bytes base SegDescriptor.access =
      get g.bytes base SegDescriptor.access :=
  createDescriptor_elsewhere (codeFields_among user) rfl (by decide) apart

theorem gdtDataDescriptor_elsewhere
    (apart : base + segDescriptorSize ≤ offset.toNat ∨ offset.toNat + segDescriptorSize ≤ base) :
    get (gdtDataDescriptor g offset user).bytes base SegDescriptor.access =
      get g.bytes base SegDescriptor.access :=
  createDescriptor_elsewhere (dataFields_among user) rfl (by decide) apart

theorem gdtTssDescriptor_elsewhere {tss : UInt64}
    (apart : base + segDescriptorSize ≤ offset.toNat ∨ offset.toNat + sysDescriptorSize ≤ base) :
    get (gdtTssDescriptor g offset tss).bytes base SegDescriptor.access =
      get g.bytes base SegDescriptor.access :=
  createDescriptor_elsewhere (tssFields_among tss) rfl (by decide) apart

end Access

/-- After the set up the kernel's segments have privilege level 0, the user's have level 3, and the
descriptor of the task state segment, which ends the table, has its address. -/
theorem gdtSetup_segments (tss : UInt64) (g : Gdt) :
    get (gdtSetup tss g).bytes kernelCodeSelector SegDescriptor.access = 0x9A ∧
    get (gdtSetup tss g).bytes kernelDataSelector SegDescriptor.access = 0x92 ∧
    get (gdtSetup tss g).bytes userCodeSelector SegDescriptor.access = 0xFA ∧
    get (gdtSetup tss g).bytes userDataSelector SegDescriptor.access = 0xF2 ∧
    segmentAt (gdtSetup tss g).bytes tssSelector =
      { base := tss.toNat, limit := sizeofTss, access := 0x89 } ∧
    (gdtSetup tss g).size = max g.size (tssSelector + sysDescriptorSize) := by
  refine ⟨?_, ?_, ?_, ?_, gdtTssDescriptor_segment _ _ tss, ?_⟩
  · rw [gdtSetup, gdtTssDescriptor_elsewhere (by decide), gdtDataDescriptor_elsewhere (by decide),
      gdtCodeDescriptor_elsewhere (by decide), gdtDataDescriptor_elsewhere (by decide)]
    exact gdtCodeDescriptor_here _ (UInt16.ofNat kernelCodeSelector) false
  · rw [gdtSetup, gdtTssDescriptor_elsewhere (by decide), gdtDataDescriptor_elsewhere (by decide),
      gdtCodeDescriptor_elsewhere (by decide)]
    exact gdtDataDescriptor_here _ (UInt16.ofNat kernelDataSelector) false
  · rw [gdtSetup, gdtTssDescriptor_elsewhere (by decide), gdtDataDescriptor_elsewhere (by decide)]
    exact gdtCodeDescriptor_here _ (UInt16.ofNat userCodeSelector) true
  · rw [gdtSetup, gdtTssDescriptor_elsewhere (by decide)]
    exact gdtDataDescriptor_here _ (UInt16.ofNat userDataSelector) true
  · rw [gdtSetup, gdtTssDescriptor, createDescriptor_size, gdtDataDescriptor, createDescriptor_size,
      gdtCodeDescriptor, createDescriptor_size, gdtDataDescriptor, createDescriptor_size,
        gdtCodeDescriptor,
      createDescriptor_size]
    simp only [max_assoc]
    rfl

end PaintKernel
