import Mathlib
import PaintKernel.ElfLoader

set_option autoImplicit false

/-! What the segment loop does to the lower half. -/

namespace PaintKernel

open ByteMemory RadixTree LinkedList

section Loops

variable {body : Nat → Loader → Loader} {base j remaining : Nat} {s s' : Loader}

/-- The rule for the page loops: what every iteration carries on holds at the end. -/
theorem forPages_run (holds : Nat → Loader → Prop) (bound : j + remaining ≤ 2 ^ 19)
    (step : ∀ i s, j ≤ i → i < j + remaining → holds i s →
      holds (i + 1) (body ((base + 4096 * i) % 2 ^ 64) s)) (start : holds j s) :
    ∃ s', forPages body base j remaining s = some s' ∧ holds (j + remaining) s' := by
  induction remaining generalizing j s with
  | zero => exact ⟨s, rfl, start⟩
  | succ remaining ih =>
      have here := step j s le_rfl (by omega) start
      rcases ih (j := j + 1) (by omega) (fun i s low high =>
        step i s (by omega) (by omega)) here with
        ⟨s', run, last⟩
      refine ⟨s', ?_, ?_⟩
      · rw [forPages, if_pos (by omega), run]
      · rwa [show j + (remaining + 1) = j + 1 + remaining by omega]

theorem forPages_bound (run : forPages body base j (remaining + 1) s = some s') :
    j + remaining < 2 ^ 19 := by
  induction remaining generalizing j s with
  | zero =>
      rw [forPages] at run
      split at run
      · omega
      · cases run
  | succ remaining ih =>
      rw [forPages] at run
      split at run
      · have := ih run
        omega
      · cases run

theorem forPages_invariant {holds : Loader → Prop}
    (run : forPages body base j remaining s = some s')
    (step : ∀ i s, j ≤ i → i < j + remaining → holds s →
      holds (body ((base + 4096 * i) % 2 ^ 64) s))
    (start : holds s) : holds s' := by
  induction remaining generalizing j s with
  | zero =>
      cases run
      exact start
  | succ remaining ih =>
      rw [forPages] at run
      split at run
      · exact ih run (fun i s low high => step i s (by omega) (by omega))
          (step j s le_rfl (by omega) start)
      · cases run

theorem forPages_log (grows : ∀ address s, ∀ e ∈ s.log, e ∈ (body address s).log)
    (run : forPages body base j remaining s = some s') : ∀ e ∈ s.log, e ∈ s'.log := by
  intro e
  have step : ∀ i (s : Loader), j ≤ i → i < j + remaining → e ∈ s.log →
      e ∈ (body ((base + 4096 * i) % 2 ^ 64) s).log := fun i s _ _ member => grows _ s e member
  exact forPages_invariant run step

theorem mapPage_log (root address : Nat) (s : Loader) :
    ∀ e ∈ s.log, e ∈ (mapPage root address s).log :=
  fun _ member => List.mem_append_left _ member

theorem protectPage_log (root : Nat) (readable writable executable : Bool) (address : Nat)
    (s : Loader) :
    ∀ e ∈ s.log, e ∈ (protectPage root readable writable executable address s).log :=
  fun _ member => List.mem_append_left _ member

theorem copyBytes_invariant (holds : Loader → Prop) {image : Mem} {des src i : Nat}
    (run : copyBytes image des src i remaining s = some s')
    (step : ∀ n s k byte d src' writable, i ≤ n → n < i + remaining → holds s →
      s.kernel.storeVirt ((des + n) % 2 ^ 64) byte = some k →
        holds ⟨k, s.log ++ [.memcpy d src' writable]⟩)
    (start : holds s) : holds s' := by
  induction remaining generalizing i s with
  | zero =>
      cases run
      exact start
  | succ remaining ih =>
      rw [copyBytes] at run
      split at run
      · cases run
      · rename_i stored
        exact ih run (fun n s k byte d src' writable low high =>
          step n s k byte d src' writable (by omega) (by omega))
          (step i s _ _ _ _ _ le_rfl (by omega) start stored)

theorem copyBytes_log {image : Mem} {des src i : Nat}
    (run : copyBytes image des src i remaining s = some s') : ∀ e ∈ s.log, e ∈ s'.log := by
  intro e
  exact copyBytes_invariant (fun s => e ∈ s.log) run
    fun _ _ _ _ _ _ _ _ _ member _ => List.mem_append_left _ member

section Segments

variable (holds : Loader → Prop) {image : Mem} {root : Nat}

theorem loadSegment_invariant {h : Phdr}
    (mapped : ∀ address s, holds s → holds (mapPage root address s))
    (copied : ∀ s k des src writable, holds s → holds ⟨k, s.log ++ [.memcpy des src writable]⟩)
    (guarded : ∀ r w x address s, holds s → holds (protectPage root r w x address s))
    (run : loadSegment image root h s = some s') (start : holds s) : holds s' := by
  rw [loadSegment] at run
  split at run
  · split at run
    · cases run
    · rename_i mapping
      split at run
      · cases run
      · rename_i copying
        have first := forPages_invariant mapping (fun _ s _ _ => mapped _ s) start
        have second := copyBytes_invariant holds copying (fun _ s k _ des src writable _ _ held _ =>
          copied s k des src writable held) first
        exact forPages_invariant run (fun _ s _ _ => guarded _ _ _ _ s) second
  · cases run
    exact start

theorem loadSegments_invariant {hs : List Phdr}
    (mapped : ∀ address s, holds s → holds (mapPage root address s))
    (copied : ∀ s k des src writable, holds s → holds ⟨k, s.log ++ [.memcpy des src writable]⟩)
    (guarded : ∀ r w x address s, holds s → holds (protectPage root r w x address s))
    (run : loadSegments image root hs s = some s') (start : holds s) : holds s' := by
  induction hs generalizing s with
  | nil =>
      cases run
      exact start
  | cons h rest ih =>
      rw [loadSegments] at run
      split at run
      · cases run
      · rename_i here
        exact ih run (loadSegment_invariant holds mapped copied guarded here start)

theorem loadSegments_log {hs : List Phdr} (run : loadSegments image root hs s = some s') :
    ∀ e ∈ s.log, e ∈ s'.log := by
  intro e
  exact loadSegments_invariant (fun s => e ∈ s.log) (fun address s => mapPage_log root address s e)
    (fun _ _ _ _ _ => List.mem_append_left _)
    (fun r w x address s => protectPage_log root r w x address s e) run

end Segments

end Loops

def segmentPage (image : Mem) (h : Phdr) (page : Nat) : UserPage where
  byte o :=
    if o < 4096 ∧ h.vaddr ≤ 4096 * page + o ∧ 4096 * page + o < h.vaddr + h.memsz then
      fileByte image (h.offset + (4096 * page + o - h.vaddr))
    else 0
  writable := h.writable

def placeSegment (image : Mem) (h : Phdr) (user : UserSpace) : UserSpace := fun page =>
  if h.Touches page then some (segmentPage image h page) else user page

/-- `i` pages from `first` on are those of `content`, the others those of `user`. -/
def overlay (first i : Nat) (content user : UserSpace) : UserSpace := fun page =>
  if first ≤ page ∧ page < first + i then content page else user page

theorem overlay_zero (first : Nat) (content user : UserSpace) :
    overlay first 0 content user = user := by
  funext page
  exact if_neg (by omega)

theorem overlay_succ (first i : Nat) (content user : UserSpace) :
    overlay first (i + 1) content user =
      Function.update (overlay first i content user) (first + i) (content (first + i)) := by
  funext page
  by_cases here : page = first + i
  · rw [here, Function.update_self]
    exact if_pos (by omega)
  · rw [Function.update_of_ne here]
    unfold overlay
    congr 1
    rw [eq_iff_iff]
    omega

theorem overlay_next (first i : Nat) (content user : UserSpace) :
    overlay first i content user (first + i) = user (first + i) :=
  if_neg (by omega)

def copiedTo (image : Mem) (des src i : Nat) (user : UserSpace) : UserSpace := fun page =>
  (user page).map fun content => { content with
    byte := fun o =>
      if o < 4096 ∧ des ≤ 4096 * page + o ∧ 4096 * page + o < des + i then
        fileByte image (src + (4096 * page + o - des))
      else content.byte o }

theorem copiedTo_zero (image : Mem) (des src : Nat) (user : UserSpace) :
    copiedTo image des src 0 user = user := by
  funext page
  cases found : user page with
  | none => simp [copiedTo, found]
  | some content =>
      simp only [copiedTo, found, Option.map_some, Option.some.injEq]
      congr 1
      funext o
      exact if_neg (by omega)

theorem copiedTo_succ {image : Mem} {des src i : Nat} {user : UserSpace} {content : UserPage}
    (present : copiedTo image des src i user ((des + i) / 4096) = some content) :
    copiedTo image des src (i + 1) user = Function.update (copiedTo image des src i user)
      ((des + i) / 4096) (some (content.store ((des + i) % 4096) (fileByte image (src + i)))) := by
  funext page
  by_cases here : page = (des + i) / 4096
  · subst here
    rw [Function.update_self]
    simp only [copiedTo, Option.map_eq_some_iff] at present ⊢
    rcases present with ⟨before, found, rfl⟩
    refine ⟨before, found, ?_⟩
    simp only [UserPage.store, UserPage.mk.injEq, and_true]
    funext o
    by_cases written : o = (des + i) % 4096
    · rw [if_pos (by omega), if_pos written]
      congr 2
      omega
    · rw [if_neg written]
      congr 1
      rw [eq_iff_iff]
      omega
  · rw [Function.update_of_ne here]
    simp only [copiedTo]
    congr 1
    funext before
    congr 1
    funext o
    congr 1
    rw [eq_iff_iff]
    omega

def mapEvents (h : Phdr) (count : Nat) : List LoadEvent :=
  (List.range count).map fun i => .vmMap (4096 * (h.vaddr / 4096 + i)) true

def copyEvents (h : Phdr) (count : Nat) : List LoadEvent :=
  (List.range count).map fun i => .memcpy (h.vaddr + i) ((h.offset + i) % 2 ^ 64) true

def protectEvents (h : Phdr) (count : Nat) : List LoadEvent :=
  (List.range count).map fun i => .vmProtect (4096 * (h.vaddr / 4096 + i)) true

def segmentEvents (h : Phdr) : List LoadEvent :=
  mapEvents h h.pageCount ++ copyEvents h h.memsz ++ protectEvents h h.pageCount

section Segment

variable {image : Mem} {root : Nat} {h : Phdr} {k : Kernel} {free : List Nat} {user : UserSpace}
variable {log : List LoadEvent}

theorem loopAddress (lower : h.Lower) {i : Nat} (bound : i < h.pageCount) :
    (h.pageBase + 4096 * i) % 2 ^ 64 = 4096 * (h.vaddr / 4096 + i) ∧
      4096 * (h.vaddr / 4096 + i) < 2 ^ 47 ∧
      4096 * (h.vaddr / 4096 + i) / 4096 = h.vaddr / 4096 + i := by
  rw [Phdr.pageCount_eq lower] at bound
  rw [Phdr.pageBase_eq lower]
  unfold Phdr.Lower at lower
  omega

theorem overlay_touches (lower : h.Lower) (content : UserSpace) :
    overlay (h.vaddr / 4096) h.pageCount content user =
      fun page => if h.Touches page then content page else user page := by
  funext page
  simp only [overlay, Phdr.touches_iff lower]

/-- Mapping fresh pages: each becomes a zero page and every call succeeds. -/
theorem mapPages_spec (log : List LoadEvent) (holds : HoldsUser root k free user) (lower : h.Lower)
    (counted : h.pageCount ≤ 2 ^ 19) (room : 4 * h.pageCount ≤ free.length)
    (fresh : ∀ page, h.Touches page → user page = none) :
    ∃ k' free', forPages (mapPage root) h.pageBase 0 h.pageCount ⟨k, log⟩ =
        some ⟨k', log ++ mapEvents h h.pageCount⟩ ∧
      HoldsUser root k' free' (fun page => if h.Touches page then some zeroPage else user page) ∧
      free.length ≤ free'.length + 4 * h.pageCount := by
  let mapped := fun (i : Nat) (s : Loader) =>
    s.log = log ++ mapEvents h i ∧ ∃ free', free.length ≤ free'.length + 4 * i ∧
      HoldsUser root s.kernel free' (overlay (h.vaddr / 4096) i (fun _ => some zeroPage) user)
  have step : ∀ i s, 0 ≤ i → i < 0 + h.pageCount → mapped i s →
      mapped (i + 1) (mapPage root ((h.pageBase + 4096 * i) % 2 ^ 64) s) := by
    rintro i s - bound ⟨logged, free', cost, held⟩
    rw [Nat.zero_add] at bound
    rcases loopAddress lower bound with ⟨address, low, page⟩
    have absent := fresh _ (Phdr.touches_at lower bound)
    rcases held.vmMap_new low (by rw [page, overlay_next, absent]) (by omega) with
      ⟨k', free'', call, held', cost'⟩
    rw [address, mapPage, call]
    rw [page, ← overlay_succ] at held'
    exact ⟨by simp [logged, mapEvents, List.range_succ], free'', by omega, held'⟩
  have start : mapped 0 ⟨k, log⟩ :=
    ⟨by simp [mapEvents], free, by omega, by rwa [overlay_zero]⟩
  rcases forPages_run mapped (by omega) step start with ⟨⟨k', log'⟩, run, logged, free', cost, held⟩
  simp only [Nat.zero_add] at logged cost held
  subst logged
  rw [overlay_touches lower] at held
  exact ⟨k', free', run, held, cost⟩

theorem protectPages_spec (log : List LoadEvent) (holds : HoldsUser root k free user)
    (lower : h.Lower) (counted : h.pageCount ≤ 2 ^ 19)
    (present : ∀ page, h.Touches page → (user page).isSome) :
    ∃ k', forPages (protectPage root h.readable h.writable h.executable) h.pageBase 0 h.pageCount
        ⟨k, log⟩ = some ⟨k', log ++ protectEvents h h.pageCount⟩ ∧
      HoldsUser root k' free (fun page => if h.Touches page then
        (user page).map ({ · with writable := h.writable }) else user page) := by
  let protectedTo := fun (i : Nat) (s : Loader) =>
    s.log = log ++ protectEvents h i ∧ HoldsUser root s.kernel free
      (overlay (h.vaddr / 4096) i (fun page =>
        (user page).map ({ · with writable := h.writable })) user)
  have step : ∀ i s, 0 ≤ i → i < 0 + h.pageCount → protectedTo i s →
      protectedTo (i + 1) (protectPage root h.readable h.writable h.executable
        ((h.pageBase + 4096 * i) % 2 ^ 64) s) := by
    rintro i s - bound ⟨logged, held⟩
    rw [Nat.zero_add] at bound
    rcases loopAddress lower bound with ⟨address, low, page⟩
    rcases Option.isSome_iff_exists.mp (present _ (Phdr.touches_at lower bound)) with
      ⟨content, found⟩
    rcases held.vmProtect low (show _ = some content by rw [page, overlay_next, found])
      h.readable h.writable h.executable with ⟨k', call, held'⟩
    rw [address, protectPage, call]
    refine ⟨by simp [logged, protectEvents, List.range_succ], ?_⟩
    rw [overlay_succ, found, Option.map_some, ← page]
    exact held'
  have start : protectedTo 0 ⟨k, log⟩ := ⟨by simp [protectEvents], by rwa [overlay_zero]⟩
  rcases forPages_run protectedTo (by omega) step start with ⟨⟨k', log'⟩, run, logged, held⟩
  simp only [Nat.zero_add] at logged held
  subst logged
  rw [overlay_touches lower] at held
  exact ⟨k', run, held⟩

/-- Copying into mapped writable pages never faults and moves exactly the bytes asked for. -/
theorem copyBytes_spec (image : Mem) (log : List LoadEvent) (i remaining : Nat) (lower : h.Lower)
    (within : i + remaining ≤ h.memsz)
    (held : HoldsUser root k free (copiedTo image h.vaddr h.offset i user))
    (writable : ∀ n < h.memsz, ∃ content, user ((h.vaddr + n) / 4096) = some content ∧
      content.writable = true) :
    ∃ k', copyBytes image h.vaddr h.offset i remaining ⟨k, log ++ copyEvents h i⟩ =
        some ⟨k', log ++ copyEvents h (i + remaining)⟩ ∧
      HoldsUser root k' free (copiedTo image h.vaddr h.offset (i + remaining) user) := by
  induction remaining generalizing i k with
  | zero => exact ⟨k, rfl, held⟩
  | succ remaining ih =>
      have low : h.vaddr + i < 2 ^ 47 := by
        unfold Phdr.Lower at lower
        omega
      rcases writable i (by omega) with ⟨content, found, rights⟩
      have present : ∃ before, copiedTo image h.vaddr h.offset i user ((h.vaddr + i) / 4096) =
          some before ∧ before.writable = true := by
        simp only [copiedTo, found, Option.map_some]
        exact ⟨_, rfl, rights⟩
      rcases present with ⟨before, present, rights⟩
      rcases held.storeVirt_writable low present rights (fileByte image (h.offset + i)) with
        ⟨k', stored, held'⟩
      rw [← copiedTo_succ present] at held'
      have logged : (log ++ copyEvents h i) ++
          [.memcpy (h.vaddr + i) ((h.offset + i) % 2 ^ 64) true] =
          log ++ copyEvents h (i + 1) := by
        simp [copyEvents, List.range_succ]
      rw [copyBytes]
      simp only [Nat.mod_eq_of_lt (show h.vaddr + i < 2 ^ 64 by omega), stored]
      rw [held.writableAt low present, rights, logged,
        show i + (remaining + 1) = i + 1 + remaining by omega]
      exact ih (i + 1) (by omega) held'

theorem loadSegment_fresh (image : Mem) (log : List LoadEvent) (holds : HoldsUser root k free user)
    (loads : h.Loads) (lower : h.Lower) (counted : h.pageCount ≤ 2 ^ 19)
    (room : 4 * h.pageCount ≤ free.length) (fresh : ∀ page, h.Touches page → user page = none) :
    ∃ k' free', loadSegment image root h ⟨k, log⟩ = some ⟨k', log ++ segmentEvents h⟩ ∧
      HoldsUser root k' free' (placeSegment image h user) ∧
      free.length ≤ free'.length + 4 * h.pageCount := by
  rcases mapPages_spec log holds lower counted room fresh with ⟨k1, free', mapped, held1, cost⟩
  have covered : ∀ n < h.memsz, h.Touches ((h.vaddr + n) / 4096) := by
    intro n bound
    unfold Phdr.Touches
    omega
  rcases copyBytes_spec image (log ++ mapEvents h h.pageCount) 0 h.memsz lower (by omega)
    (by rwa [copiedTo_zero])
    (fun n bound => ⟨zeroPage, if_pos (covered n bound), rfl⟩) with ⟨k2, copied, held2⟩
  rw [Nat.zero_add] at copied held2
  rw [show copyEvents h 0 = [] by rfl, List.append_nil] at copied
  rcases protectPages_spec (log ++ mapEvents h h.pageCount ++ copyEvents h h.memsz) held2 lower
    counted (fun page touched => by simp [copiedTo, touched]) with ⟨k3, protected_, held3⟩
  refine ⟨k3, free', ?_, ?_, cost⟩
  · rw [loadSegment, if_pos loads, mapped]
    simp only [copied]
    rw [protected_, segmentEvents, List.append_assoc, List.append_assoc, List.append_assoc]
  · convert held3 using 1
    funext page
    by_cases touched : h.Touches page
    · simp only [placeSegment, copiedTo, if_pos touched, Option.map_some, segmentPage, zeroPage]
    · simp only [placeSegment, copiedTo, if_neg touched]
      cases found : user page with
      | none => rfl
      | some content =>
          rw [Option.map_some, Option.some.injEq]
          have outside : ∀ o, o < 4096 → ¬ (h.vaddr ≤ 4096 * page + o ∧
              4096 * page + o < h.vaddr + h.memsz) := by
            intro o bound inside
            unfold Phdr.Touches at touched
            omega
          have same : ∀ o, content.byte o = if o < 4096 ∧ h.vaddr ≤ 4096 * page + o ∧
              4096 * page + o < h.vaddr + h.memsz then
                fileByte image (h.offset + (4096 * page + o - h.vaddr)) else content.byte o :=
            fun o => (if_neg (fun inside => outside o inside.1 inside.2)).symm
          rw [← funext same]

end Segment

def loadable (image : Mem) : List Phdr := (segments image).filter (fun h => decide h.Loads)

theorem loadSegments_filter (image : Mem) (root : Nat) (hs : List Phdr) (s : Loader) :
    loadSegments image root hs s =
      loadSegments image root (hs.filter (fun h => decide h.Loads)) s := by
  induction hs generalizing s with
  | nil => rfl
  | cons h rest ih =>
      by_cases loads : h.Loads
      · rw [List.filter_cons_of_pos (by simpa using loads), loadSegments, loadSegments]
        cases loadSegment image root h s with
        | none => rfl
        | some s => exact ih s
      · rw [List.filter_cons_of_neg (by simpa using loads), loadSegments, loadSegment, if_neg loads]
        exact ih s

def placeSegments (image : Mem) : List Phdr → UserSpace → UserSpace
  | [], user => user
  | h :: rest, user => placeSegments image rest (placeSegment image h user)

def pageTotal (hs : List Phdr) : Nat := (hs.map Phdr.pageCount).sum

/-- The page loops of all these segments touch different, fresh pages and stay in `int`. -/
structure Separate (hs : List Phdr) (user : UserSpace) : Prop where
  counted : ∀ h ∈ hs, h.pageCount ≤ 2 ^ 19
  fresh : ∀ h ∈ hs, ∀ page, h.Touches page → user page = none
  apart : hs.Pairwise fun h h' => ∀ page, h.Touches page → ¬ h'.Touches page

section Run

variable {image : Mem} {root : Nat} {h : Phdr} {hs : List Phdr} {k : Kernel} {free : List Nat}
variable {user : UserSpace} {log : List LoadEvent} {s s' : Loader}

theorem separate_cons (image : Mem) : Separate (h :: hs) user ↔
    h.pageCount ≤ 2 ^ 19 ∧ (∀ page, h.Touches page → user page = none) ∧
      Separate hs (placeSegment image h user) := by
  constructor
  · rintro ⟨counted, fresh, apart⟩
    rw [List.pairwise_cons] at apart
    refine ⟨counted h (by simp), fresh h (by simp), fun h' member =>
      counted h' (by simp [member]), ?_,
      apart.2⟩
    intro h' member page touched
    rw [placeSegment, if_neg (fun here => apart.1 h' member page here touched)]
    exact fresh h' (by simp [member]) page touched
  · rintro ⟨counted, fresh, rest⟩
    have apart : ∀ h' ∈ hs, ∀ page, h.Touches page → ¬ h'.Touches page := by
      intro h' member page here touched
      have absent := rest.fresh h' member page touched
      rw [placeSegment, if_pos here] at absent
      cases absent
    refine ⟨?_, ?_, List.pairwise_cons.mpr ⟨apart, rest.apart⟩⟩
    · rintro h' (_ | ⟨_, member⟩)
      · exact counted
      · exact rest.counted h' member
    · rintro h' (_ | ⟨_, member⟩) page touched
      · exact fresh page touched
      · have absent := rest.fresh h' member page touched
        rwa [placeSegment, if_neg (fun here => apart h' member page here touched)] at absent

/-- Segments on separate fresh pages load without a failing call. -/
theorem loadSegments_separate (image : Mem) (log : List LoadEvent)
    (holds : HoldsUser root k free user) (loads : ∀ h ∈ hs, h.Loads) (lower : ∀ h ∈ hs, h.Lower)
    (room : 4 * pageTotal hs ≤ free.length) (separate : Separate hs user) :
    ∃ k' free', loadSegments image root hs ⟨k, log⟩ = some ⟨k', log ++ hs.flatMap segmentEvents⟩ ∧
      HoldsUser root k' free' (placeSegments image hs user) := by
  induction hs generalizing k free user log with
  | nil => exact ⟨k, free, by simp [loadSegments], holds⟩
  | cons h rest ih =>
      rw [separate_cons image] at separate
      rcases separate with ⟨counted, fresh, rest_separate⟩
      simp only [pageTotal, List.map_cons, List.sum_cons] at room
      rcases loadSegment_fresh image log holds (loads h (by simp)) (lower h (by simp))
        counted (by omega) fresh with ⟨k1, free1, here, held, cost⟩
      rcases ih (log ++ segmentEvents h) held (fun h' member => loads h' (by simp [member]))
        (fun h' member => lower h' (by simp [member])) (by unfold pageTotal; omega)
          rest_separate with
        ⟨k2, free2, run, held⟩
      refine ⟨k2, free2, ?_, held⟩
      rw [loadSegments, here]
      simp only [run, List.flatMap_cons, List.append_assoc]

theorem segmentEvents_succeed (h : Phdr) : ∀ e ∈ segmentEvents h, e.Succeeds := by
  intro e member
  simp only [segmentEvents, mapEvents, copyEvents, protectEvents, List.mem_append,
    List.mem_map] at member
  rcases member with (⟨_, _, rfl⟩ | ⟨_, _, rfl⟩) | ⟨_, _, rfl⟩ <;> rfl

theorem mapPages_fresh {j remaining : Nat} (holds : HoldsUser root k free user) (lower : h.Lower)
    (within : j + remaining ≤ h.pageCount) (room : 4 * remaining ≤ free.length)
    (run : forPages (mapPage root) h.pageBase j remaining ⟨k, log⟩ = some s')
    (succeed : ∀ e ∈ s'.log, e.Succeeds) :
    ∀ i, j ≤ i → i < j + remaining → user (h.vaddr / 4096 + i) = none := by
  induction remaining generalizing j k free user log with
  | zero =>
      intro i first last
      omega
  | succ remaining ih =>
      rw [forPages] at run
      split at run
      · rcases loopAddress lower (i := j) (by omega) with ⟨address, low, page⟩
        rw [address] at run
        have kept := forPages_log (mapPage_log root) run
        cases found : user (h.vaddr / 4096 + j) with
        | some content =>
            have call := holds.vmMap_old low (by rw [page, found])
            have failed := succeed (.vmMap (4096 * (h.vaddr / 4096 + j)) false)
              (kept _ (by simp [mapPage, call]))
            cases failed
        | none =>
            rcases holds.vmMap_new low (by rw [page, found]) (by omega) with
              ⟨k', free', call, held, cost⟩
            rw [page] at held
            simp only [mapPage, call] at run
            have later := ih held (by omega) (by omega) run
            intro i first last
            rcases Nat.eq_or_lt_of_le first with rfl | first
            · exact found
            · have absent := later i first (by omega)
              rwa [Function.update_of_ne (by omega)] at absent
      · cases run

theorem loadSegment_succeeds (holds : HoldsUser root k free user) (loads : h.Loads)
    (lower : h.Lower) (room : 4 * h.pageCount ≤ free.length)
    (run : loadSegment image root h ⟨k, log⟩ = some s') (succeed : ∀ e ∈ s'.log, e.Succeeds) :
    h.pageCount ≤ 2 ^ 19 ∧ ∀ page, h.Touches page → user page = none := by
  rw [loadSegment, if_pos loads] at run
  split at run
  · cases run
  · rename_i s1 mapped
    split at run
    · cases run
    · rename_i s2 copied
      have kept : ∀ e ∈ s1.log, e.Succeeds := fun e member =>
        succeed e (forPages_log (protectPage_log _ _ _ _) run e (copyBytes_log copied e member))
      have fresh := mapPages_fresh holds lower (by omega) room mapped kept
      refine ⟨?_, ?_⟩
      · rw [Phdr.pageCount] at mapped ⊢
        have := forPages_bound mapped
        omega
      · intro page touched
        rw [Phdr.touches_iff lower] at touched
        have absent := fresh (page - h.vaddr / 4096) (by omega) (by omega)
        rwa [show h.vaddr / 4096 + (page - h.vaddr / 4096) = page by omega] at absent

/-- The loop succeeds in every call exactly on separate fresh pages. -/
theorem loadSegments_succeeds (holds : HoldsUser root k free user) (loads : ∀ h ∈ hs, h.Loads)
    (lower : ∀ h ∈ hs, h.Lower) (room : 4 * pageTotal hs ≤ free.length)
    (run : loadSegments image root hs ⟨k, log⟩ = some s') (succeed : ∀ e ∈ s'.log, e.Succeeds) :
    Separate hs user := by
  induction hs generalizing k free user log with
  | nil => exact ⟨by simp, by simp, List.Pairwise.nil⟩
  | cons h rest ih =>
      simp only [pageTotal, List.map_cons, List.sum_cons] at room
      rw [loadSegments] at run
      split at run
      · cases run
      · rename_i s1 here
        have kept : ∀ e ∈ s1.log, e.Succeeds := fun e member =>
          succeed e (loadSegments_log run e member)
        rcases loadSegment_succeeds holds (loads h (by simp)) (lower h (by simp))
          (by omega) here kept with
          ⟨counted, fresh⟩
        rcases loadSegment_fresh image log holds (loads h (by simp))
          (lower h (by simp)) counted (by omega) fresh with ⟨k1, free1, here', held, cost⟩
        rw [here, Option.some.injEq] at here'
        subst here'
        rw [separate_cons image]
        exact ⟨counted, fresh, ih held (fun h' member => loads h' (by simp [member]))
          (fun h' member => lower h' (by simp [member])) (by unfold pageTotal; omega) run⟩

theorem loadSegments_counted (loads : ∀ h ∈ hs, h.Loads)
    (run : loadSegments image root hs s = some s') : ∀ h ∈ hs, h.pageCount ≤ 2 ^ 19 := by
  induction hs generalizing s with
  | nil => simp
  | cons h rest ih =>
      rw [loadSegments] at run
      split at run
      · cases run
      · rename_i s1 here
        rintro h' (_ | ⟨_, member⟩)
        · rw [loadSegment, if_pos (loads h (by simp))] at here
          split at here
          · cases here
          · rename_i mapped
            rw [Phdr.pageCount] at mapped ⊢
            have := forPages_bound mapped
            omega
        · exact ih (fun h' member => loads h' (by simp [member])) run h' member

theorem placeSegments_elsewhere {page : Nat} (outside : ∀ h ∈ hs, ¬ h.Touches page) :
    placeSegments image hs user page = user page := by
  induction hs generalizing user with
  | nil => rfl
  | cons h rest ih =>
      rw [placeSegments, ih (fun h' member => outside h' (by simp [member])), placeSegment,
        if_neg (outside h (by simp))]

theorem placeSegments_here {page : Nat} (apart : hs.Pairwise fun h h' => ∀ page, h.Touches page →
    ¬ h'.Touches page) (member : h ∈ hs) (touched : h.Touches page) :
    placeSegments image hs user page = some (segmentPage image h page) := by
  induction hs generalizing user with
  | nil => cases member
  | cons head rest ih =>
      rw [List.pairwise_cons] at apart
      rw [placeSegments]
      rcases List.mem_cons.mp member with rfl | member
      · rw [placeSegments_elsewhere (fun h' other => apart.1 h' other page touched), placeSegment,
          if_pos touched]
      · exact ih apart.2 member

theorem placeSegments_present (image : Mem)
    (apart : hs.Pairwise fun h h' => ∀ page, h.Touches page →
    ¬ h'.Touches page) (page : Nat) :
    placeSegments image hs (fun _ => none) page ≠ none ↔ ∃ h ∈ hs, h.Touches page := by
  by_cases touched : ∃ h ∈ hs, h.Touches page
  · rcases touched with ⟨h, member, here⟩
    simp only [placeSegments_here apart member here, ne_eq, reduceCtorEq,
      not_false_eq_true, true_iff]
    exact ⟨h, member, here⟩
  · rw [placeSegments_elsewhere (fun h member here => touched ⟨h, member, here⟩)]
    simp [touched]

end Run

end PaintKernel
