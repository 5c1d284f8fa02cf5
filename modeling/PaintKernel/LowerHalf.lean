import Mathlib
import PaintKernel.Unmap

set_option autoImplicit false

/-! `unmap_lower_half`: the tables it hands back and the order of its accesses. -/

namespace PaintKernel

open ByteMemory RadixTree

structure TableTree (m : Mem) (root : Nat) : Prop where
  base : PageBase root
  unshared : ∀ (left right : List (Fin 512)) page, left.length < 4 → right.length < 4 →
    pageAt m root left = some page → pageAt m root right = some page → left = right

def Under (m : Mem) (root : Nat) (top : List (Fin 512)) (page : Nat) : Prop :=
  ∃ path, top <+: path ∧ path.length < 4 ∧ pageAt m root path = some page

def freed (trace : List TableAccess) : List Nat :=
  trace.filterMap fun
    | .read _ => none
    | .free page => some page

/-- Nothing is read after it was freed. -/
def Fresh (earlier later : TableAccess) : Prop :=
  ∀ page, earlier = .free page → later ≠ .read page

def level2Accesses (m : Mem) (l2Table : Nat) (i : Fin 512) : List TableAccess :=
  .read l2Table :: match nextTable 2 (slot m l2Table i) with
    | none => []
    | some child => [.read l2Table, .free child]

def tableAccesses (depth : Nat) (inner : Nat → List TableAccess) (m : Mem) (table : Nat)
    (i : Fin 512) : List TableAccess :=
  .read table :: match nextTable depth (slot m table i) with
    | none => []
    | some child => .read table :: (inner child ++ [.read table, .free child])

def level3Accesses (m : Mem) : Nat → Fin 512 → List TableAccess :=
  tableAccesses 1 (fun l2Table => (List.finRange 512).flatMap (level2Accesses m l2Table)) m

def level4Accesses (m : Mem) : Nat → Fin 512 → List TableAccess :=
  tableAccesses 0 (fun l3Table => (List.finRange 512).flatMap (level3Accesses m l3Table)) m

theorem mem_freed {trace : List TableAccess} {page : Nat} :
    page ∈ freed trace ↔ .free page ∈ trace := by
  unfold freed
  rw [List.mem_filterMap]
  constructor
  · rintro ⟨access, member, same⟩
    cases access with
    | read other => cases same
    | free other =>
        cases same
        exact member
  · exact fun member => ⟨_, member, rfl⟩

theorem freed_append (front back : List TableAccess) :
    freed (front ++ back) = freed front ++ freed back := List.filterMap_append

theorem freed_flatMap {α : Type} (items : List α) (acc : α → List TableAccess) :
    freed (items.flatMap acc) = items.flatMap fun i => freed (acc i) := by
  induction items with
  | nil => rfl
  | cons i rest ih => rw [List.flatMap_cons, freed_append, ih, List.flatMap_cons]

section Tree

variable {m : Mem} {root t page : Nat} {path top : List (Fin 512)} {i j : Fin 512}

theorem Under.pageBase (tree : TableTree m root) (under : Under m root top page) :
    PageBase page := by
  rcases under with ⟨path, _, _, reached⟩
  exact pageAt_pageBase tree.base reached

theorem Under.of_snoc (under : Under m root (path ++ [i]) page) : Under m root path page := by
  rcases under with ⟨other, inside, short, reached⟩
  exact ⟨other, (List.prefix_append path [i]).trans inside, short, reached⟩

theorem Under.index (tree : TableTree m root) (left : Under m root (path ++ [i]) page)
    (right : Under m root (path ++ [j]) page) : i = j := by
  rcases left with ⟨first, ⟨_, rfl⟩, shortFirst, reachedFirst⟩
  rcases right with ⟨second, ⟨rest, rfl⟩, shortSecond, reachedSecond⟩
  have same := tree.unshared _ _ page shortFirst shortSecond reachedFirst reachedSecond
  simp only [List.append_assoc, List.append_cancel_left_eq, List.cons_append, List.nil_append,
    List.cons.injEq] at same
  exact same.1

theorem Under.ne_table (tree : TableTree m root) (reached : pageAt m root path = some t)
    (under : Under m root (path ++ [i]) page) : page ≠ t := by
  rintro rfl
  rcases under with ⟨other, inside, short, found⟩
  have longer := inside.length_le
  simp only [List.length_append, List.length_cons, List.length_nil] at longer
  have same := tree.unshared path other page (by omega) short reached found
  rw [same] at longer
  omega

theorem Under.cases (reached : pageAt m root path = some t) (under : Under m root path page) :
    page = t ∨ ∃ i, Under m root (path ++ [i]) page := by
  rcases under with ⟨other, ⟨rest, rfl⟩, short, found⟩
  cases rest with
  | nil =>
      rw [List.append_nil, reached, Option.some.injEq] at found
      exact .inl found.symm
  | cons i rest => exact .inr ⟨i, path ++ i :: rest, ⟨rest, by simp⟩, short, found⟩

/-- The accesses of one iteration over the table `t`. -/
structure Orderly (m : Mem) (root : Nat) (path : List (Fin 512)) (t : Nat) (i : Fin 512)
    (acc : List TableAccess) : Prop where
  frees : ∀ page, .free page ∈ acc ↔ Under m root (path ++ [i]) page
  reads : ∀ page, .read page ∈ acc → page = t ∨ Under m root (path ++ [i]) page
  order : acc.Pairwise Fresh
  once : (freed acc).Nodup

structure OrderlyLoop (m : Mem) (root : Nat) (path : List (Fin 512)) (t : Nat) (is : List (Fin 512))
    (acc : List TableAccess) : Prop where
  frees : ∀ page, .free page ∈ acc ↔ ∃ i ∈ is, Under m root (path ++ [i]) page
  reads : ∀ page, .read page ∈ acc → page = t ∨ ∃ i ∈ is, Under m root (path ++ [i]) page
  order : acc.Pairwise Fresh
  once : (freed acc).Nodup

theorem orderly_flatMap (tree : TableTree m root) (reached : pageAt m root path = some t)
    {acc : Fin 512 → List TableAccess} (each : ∀ i, Orderly m root path t i (acc i))
    {is : List (Fin 512)} (distinct : is.Nodup) :
    OrderlyLoop m root path t is (is.flatMap acc) where
  frees := by
    intro page
    simp only [List.mem_flatMap, (each _).frees]
  reads := by
    intro page member
    rcases List.mem_flatMap.mp member with ⟨i, listed, inside⟩
    rcases (each i).reads page inside with same | under
    · exact .inl same
    · exact .inr ⟨i, listed, under⟩
  order := by
    rw [List.pairwise_flatMap]
    refine ⟨fun i _ => (each i).order, distinct.imp ?_⟩
    rintro i j different earlier inEarlier later inLater page rfl rfl
    have under := ((each i).frees page).mp inEarlier
    rcases (each j).reads page inLater with same | other
    · exact under.ne_table tree reached same
    · exact different (under.index tree other)
  once := by
    rw [freed_flatMap, List.nodup_flatMap]
    refine ⟨fun i _ => (each i).once, distinct.imp ?_⟩
    intro i j different page inEarlier inLater
    have left := ((each i).frees page).mp (mem_freed.mp inEarlier)
    have right := ((each j).frees page).mp (mem_freed.mp inLater)
    exact different (left.index tree right)

theorem not_under_absent (reached : pageAt m root path = some t)
    (absent : nextTable path.length (slot m t i) = none) : ¬ Under m root (path ++ [i]) page := by
  rintro ⟨_, ⟨rest, rfl⟩, _, found⟩
  rw [List.append_assoc, List.singleton_append, pageAt, follow_slot _ reached, absent] at found
  cases found

theorem orderly_absent (reached : pageAt m root path = some t)
    (absent : nextTable path.length (slot m t i) = none) : Orderly m root path t i [.read t] where
  frees := fun page => ⟨fun member => by simp at member, fun under => absurd under
    (not_under_absent reached absent)⟩
  reads := by simp
  order := List.pairwise_singleton _ _
  once := by simp [freed]

theorem level2_orderly (depth : path.length = 2)
    (reached : pageAt m root path = some t) (i : Fin 512) :
    Orderly m root path t i (level2Accesses m t i) := by
  unfold level2Accesses
  cases points : nextTable 2 (slot m t i) with
  | none => exact orderly_absent reached (depth.symm ▸ points)
  | some child =>
      have found : pageAt m root (path ++ [i]) = some child := by
        rw [pageAt_snoc reached, depth, points]
      have under : ∀ page, Under m root (path ++ [i]) page ↔ page = child := by
        intro page
        constructor
        · rintro ⟨other, inside, short, reachedOther⟩
          have same := inside.eq_of_length (by
            have long := inside.length_le
            simp only [List.length_append, List.length_cons, List.length_nil] at long ⊢
            omega)
          subst same
          rw [found, Option.some.injEq] at reachedOther
          exact reachedOther.symm
        · rintro rfl
          exact ⟨_, List.prefix_refl _, by simp [depth], found⟩
      refine ⟨fun page => by simp [under], by simp, ?_, by simp [freed]⟩
      simp [Fresh]

theorem table_orderly (tree : TableTree m root) (depth : path.length < 2)
    (reached : pageAt m root path = some t) {inner : Nat → List TableAccess}
    (below : ∀ child, pageAt m root (path ++ [i]) = some child →
      OrderlyLoop m root (path ++ [i]) child (List.finRange 512) (inner child)) :
    Orderly m root path t i (tableAccesses path.length inner m t i) := by
  unfold tableAccesses
  cases points : nextTable path.length (slot m t i) with
  | none => exact orderly_absent reached points
  | some child =>
      have found : pageAt m root (path ++ [i]) = some child := by rw [pageAt_snoc reached, points]
      have loop := below child found
      have top : Under m root (path ++ [i]) child := ⟨_, List.prefix_refl _, by simp; omega, found⟩
      have inside : ∀ page, .free page ∈ inner child → Under m root (path ++ [i]) page := by
        intro page member
        rcases (loop.frees page).mp member with ⟨j, _, under⟩
        exact under.of_snoc
      refine ⟨?_, ?_, ?_, ?_⟩
      · intro page
        simp only [List.mem_cons, reduceCtorEq, List.mem_append, TableAccess.free.injEq,
          List.not_mem_nil, or_false, false_or]
        constructor
        · rintro (member | rfl)
          · exact inside page member
          · exact top
        · intro under
          rcases under.cases found with rfl | ⟨j, deeper⟩
          · exact .inr rfl
          · exact .inl ((loop.frees page).mpr ⟨j, List.mem_finRange j, deeper⟩)
      · intro page
        simp only [List.mem_cons, reduceCtorEq, List.mem_append, TableAccess.read.injEq,
          List.not_mem_nil, or_false]
        rintro (rfl | rfl | member | rfl)
        · exact .inl rfl
        · exact .inl rfl
        · rcases loop.reads page member with rfl | ⟨j, _, under⟩
          · exact .inr top
          · exact .inr under.of_snoc
        · exact .inl rfl
      · have plain : ∀ later, Fresh (.read t) later := by
          rintro later page same
          cases same
        refine List.pairwise_cons.mpr ⟨fun later _ => plain later, ?_⟩
        refine List.pairwise_cons.mpr ⟨fun later _ => plain later, ?_⟩
        refine List.pairwise_append.mpr ⟨loop.order, ?_, ?_⟩
        · simp [Fresh]
        · rintro earlier member later last page rfl rfl
          simp only [List.mem_cons, TableAccess.read.injEq, reduceCtorEq, List.not_mem_nil,
            or_false] at last
          exact (inside page member).ne_table tree reached last
      · rw [show (TableAccess.read t :: .read t :: (inner child ++ [.read t, .free child])) =
          [.read t, .read t] ++ (inner child ++ [.read t, .free child]) from rfl, freed_append,
          freed_append]
        simp only [freed, List.filterMap_cons, List.filterMap_nil, List.nil_append]
        refine List.nodup_append.mpr ⟨loop.once, List.nodup_singleton _, ?_⟩
        rintro page member _ last rfl
        rw [List.mem_singleton] at last
        rcases (loop.frees page).mp (mem_freed.mp member) with ⟨j, _, under⟩
        exact under.ne_table tree found last

theorem level3_orderly (tree : TableTree m root) (depth : path.length = 1)
    (reached : pageAt m root path = some t) (i : Fin 512) :
    Orderly m root path t i (level3Accesses m t i) := by
  rw [level3Accesses, ← depth]
  apply table_orderly tree (by omega) reached
  intro child found
  exact orderly_flatMap tree found (level2_orderly (by simp [depth]) found)
    (List.nodup_finRange 512)

theorem level4_orderly (tree : TableTree m root) (i : Fin 512) :
    Orderly m root [] root i (level4Accesses m root i) := by
  have reached : pageAt m root [] = some root := rfl
  apply table_orderly tree (by simp) reached
  intro child found
  exact orderly_flatMap tree found (level3_orderly tree (by simp) found) (List.nodup_finRange 512)

end Tree

/-- What a `pmem_free` may do: overwrite the first 16 bytes of the page it is given. -/
def FreeEffect (effect : Kernel → Nat → Kernel) : Prop :=
  ∀ k page, PageBase page → ∀ n, n < page ∨ page + 16 ≤ n → (effect k page).mem n = k.mem n

theorem pmemFree_effect : FreeEffect Kernel.pmemFree :=
  fun k page base n _ => by rw [k.pmemFree_aligned page base.1]

/-- From `w` to `w'` the accesses `more` are made: only the pages they free and the cleared
entries of the root change. -/
structure Swept (root : Nat) (w w' : Sweep) (more : List TableAccess) (cleared : List (Fin 512)) :
    Prop where
  trace : w'.trace = w.trace ++ more
  pages : ∀ page, .free page ∈ more → PageBase page ∧ page ≠ root
  kept : ∀ n, (∀ page, .free page ∈ more → n < page ∨ page + 16 ≤ n) →
    (∀ i ∈ cleared, n < root + 8 * i.val ∨ root + 8 * i.val + 8 ≤ n) →
      w'.kernel.mem n = w.kernel.mem n
  absent : ∀ i ∈ cleared, (slot w'.kernel.mem root i).present = false

section Sweeps

variable {root t : Nat} {w w' w'' : Sweep} {more later : List TableAccess}
  {cleared clearedLater : List (Fin 512)} {i : Fin 512}

theorem Swept.slot_eq (swept : Swept root w w' more cleared) (base : PageBase t)
    (top : PageBase root) (spared : .free t ∉ more) (uncleared : t = root → i ∉ cleared) :
    slot w'.kernel.mem t i = slot w.kernel.mem t i := by
  have aligned := base.1
  have alignedRoot := top.1
  have bound := i.isLt
  apply slot_congr
  intro n lower upper
  apply swept.kept n
  · intro page member
    have alignedPage := (swept.pages page member).1.1
    have different : page ≠ t := fun same => spared (same ▸ member)
    omega
  · intro c member
    have boundC := c.isLt
    by_cases same : t = root
    · have apart : i.val ≠ c.val := fun equal => uncleared same (Fin.ext equal ▸ member)
      omega
    · omega

theorem Swept.refl (root : Nat) (w : Sweep) : Swept root w w [] [] :=
  ⟨by simp, by simp, fun _ _ _ => rfl, by simp⟩

theorem Swept.trans (top : PageBase root) (first : Swept root w w' more cleared)
    (second : Swept root w' w'' later clearedLater) :
    Swept root w w'' (more ++ later) (cleared ++ clearedLater) where
  trace := by rw [second.trace, first.trace, List.append_assoc]
  pages := fun page member =>
    (List.mem_append.mp member).elim (first.pages page) (second.pages page)
  kept := by
    intro n outside uncleared
    rw [second.kept n (fun page member => outside page (List.mem_append_right _ member))
        (fun i member => uncleared i (List.mem_append_right _ member)),
      first.kept n (fun page member => outside page (List.mem_append_left _ member))
        (fun i member => uncleared i (List.mem_append_left _ member))]
  absent := by
    intro i member
    by_cases again : i ∈ clearedLater
    · exact second.absent i again
    · have early := (List.mem_append.mp member).resolve_right again
      rw [second.slot_eq top top (fun freed => (second.pages root freed).2 rfl) (fun _ => again)]
      exact first.absent i early

theorem swept_entry (root : Nat) (w : Sweep) (i : Fin 512) (base : PageBase t) :
    (w.entry t i).1 = slot w.kernel.mem t i ∧ Swept root w (w.entry t i).2 [.read t] [] :=
  ⟨w.kernel.loadEntry_eq_slot i base.2, rfl, by simp, fun _ _ _ => rfl, by simp⟩

theorem swept_free {effect : Kernel → Nat → Kernel} (within : FreeEffect effect) {page : Nat}
    (base : PageBase page) (notRoot : page ≠ root) :
    Swept root w (w.free effect page) [.free page] [] where
  trace := rfl
  pages := by
    rintro other member
    rw [List.mem_singleton, TableAccess.free.injEq] at member
    exact member ▸ ⟨base, notRoot⟩
  kept := fun n outside _ => within w.kernel page base n (outside page (by simp))
  absent := by simp

theorem swept_clear (w : Sweep) (i : Fin 512) (top : PageBase root) :
    let ptr := w.kernel.entryPtr root i
    let w' := { w with
      kernel := w.kernel.storeEntry ptr { w.kernel.loadEntry ptr with present := false } }
    slot w'.kernel.mem root i = clear (slot w.kernel.mem root i) ∧ Swept root w w' [] [i] := by
  intro ptr w'
  have memory : w'.kernel.mem = setSlot w.kernel.mem root i (clear (slot w.kernel.mem root i)) := by
    simp only [w', ptr, w.kernel.storeEntry_eq_setSlot i _ top.2,
      w.kernel.loadEntry_eq_slot i top.2]
    rfl
  refine ⟨by rw [memory, slot_setSlot], by simp [w'], by simp, ?_, ?_⟩
  · intro n _ uncleared
    have outside := uncleared i (by simp)
    rw [memory]
    exact setSlot_agreeOutside _ _ _ _ n (by omega)
  · intro c member
    rw [List.mem_singleton.mp member, memory, slot_setSlot]
    rfl

end Sweeps

section Loops

variable {m : Mem} {root t : Nat} {path : List (Fin 512)} {effect : Kernel → Nat → Kernel}

structure Intact (m : Mem) (root : Nat) (path : List (Fin 512)) (t : Nat) (is : List (Fin 512))
    (w : Sweep) : Prop where
  here : ∀ i ∈ is, slot w.kernel.mem t i = slot m t i
  below : ∀ i ∈ is, ∀ page, Under m root (path ++ [i]) page →
    ∀ j, slot w.kernel.mem page j = slot m page j

theorem Under.ne_root (tree : TableTree m root) {i : Fin 512} {page : Nat}
    (under : Under m root (path ++ [i]) page) : page ≠ root := by
  rintro rfl
  rcases under with ⟨other, inside, short, found⟩
  have longer := inside.length_le
  have same := tree.unshared [] other page (by simp) short rfl found
  rw [← same] at longer
  simp at longer

/-- A loop whose iterations are orderly reads every table before it is freed. -/
theorem foldl_swept (tree : TableTree m root) (reached : pageAt m root path = some t)
    {body : Sweep → Fin 512 → Sweep} {acc : Fin 512 → List TableAccess}
    {cleared : Fin 512 → List (Fin 512)} (each : ∀ i, Orderly m root path t i (acc i))
    (own : ∀ i, ∀ c ∈ cleared i, path = [] ∧ c = i)
    (step : ∀ w i, Intact m root path t [i] w → Swept root w (body w i) (acc i) (cleared i))
    {is : List (Fin 512)} (distinct : is.Nodup) {w : Sweep} (intact : Intact m root path t is w) :
    Swept root w (is.foldl body w) (is.flatMap acc) (is.flatMap cleared) := by
  have base := pageAt_pageBase tree.base reached
  induction is generalizing w with
  | nil => exact .refl root w
  | cons i rest ih =>
      rcases List.nodup_cons.mp distinct with ⟨notLater, restDistinct⟩
      have first := step w i ⟨fun j member =>
        intact.here j (List.mem_cons.mpr (.inl (List.mem_singleton.mp member))),
        fun j member => intact.below j (List.mem_cons.mpr (.inl (List.mem_singleton.mp member)))⟩
      rw [List.foldl_cons, List.flatMap_cons, List.flatMap_cons]
      refine first.trans tree.base (ih restDistinct ⟨?_, ?_⟩)
      · intro j later
        have different : j ≠ i := fun same => notLater (same ▸ later)
        rw [first.slot_eq base tree.base]
        · exact intact.here j (List.mem_cons_of_mem _ later)
        · exact fun freed => (((each i).frees t).mp freed).ne_table tree reached rfl
        · exact fun _ member => different (own i j member).2
      · intro j later page under slotIndex
        have different : j ≠ i := fun same => notLater (same ▸ later)
        rw [first.slot_eq (under.pageBase tree) tree.base]
        · exact intact.below j (List.mem_cons_of_mem _ later) page under slotIndex
        · exact fun freed => different (under.index tree (((each i).frees page).mp freed))
        · exact fun same => absurd same (under.ne_root tree)

theorem intact_of_swept {w w' : Sweep} {more : List TableAccess} {is : List (Fin 512)}
    (tree : TableTree m root) (reached : pageAt m root path = some t)
    (intact : Intact m root path t is w) (swept : Swept root w w' more [])
    (nothing : ∀ page, .free page ∉ more) :
    Intact m root path t is w' where
  here := by
    intro i member
    rw [swept.slot_eq (pageAt_pageBase tree.base reached) tree.base (nothing t) (by simp)]
    exact intact.here i member
  below := by
    intro i member page under j
    rw [swept.slot_eq (under.pageBase tree) tree.base (nothing page) (by simp)]
    exact intact.below i member page under j

theorem level2Body_swept (tree : TableTree m root) (within : FreeEffect effect)
    (depth : path.length = 2) (reached : pageAt m root path = some t) (w : Sweep) (i : Fin 512)
    (intact : Intact m root path t [i] w) :
    Swept root w (Sweep.level2Body effect t w i) (level2Accesses m t i) [] := by
  have base := pageAt_pageBase tree.base reached
  rcases swept_entry root w i base with ⟨read1, sweep1⟩
  rw [intact.here i (by simp)] at read1
  have again := (intact_of_swept tree reached intact sweep1 (by simp)).here i (by simp)
  rcases swept_entry root (w.entry t i).2 i base with ⟨read2, sweep2⟩
  rw [again] at read2
  unfold Sweep.level2Body level2Accesses
  simp only [read1, read2, nextTable]
  cases points : (slot m t i).present && !(slot m t i).pageSize with
  | false => exact sweep1
  | true =>
      have found := pageAt_points reached (by omega) points
      have under : Under m root (path ++ [i]) (slot m t i).target :=
        ⟨_, List.prefix_refl _, by simp [depth], found⟩
      exact (sweep1.trans tree.base sweep2).trans tree.base
        (swept_free within (target_pageBase _) (under.ne_root tree))

theorem free_child_swept (tree : TableTree m root) (within : FreeEffect effect)
    (short : path.length < 3) (reached : pageAt m root path = some t) {i : Fin 512} {child : Nat}
    (found : pageAt m root (path ++ [i]) = some child) {w w' : Sweep} {acc : List TableAccess}
    (loop : OrderlyLoop m root (path ++ [i]) child (List.finRange 512) acc)
    (swept : Swept root w w' acc []) (target : (slot w.kernel.mem t i).target = child) :
    Swept root w ((w'.entry t i).2.free effect (w'.entry t i).1.target) (acc ++
      [.read t, .free child]) [] := by
  have base := pageAt_pageBase tree.base reached
  have top : Under m root (path ++ [i]) child := ⟨_, List.prefix_refl _, by simp; omega, found⟩
  rcases swept_entry root w' i base with ⟨read, sweep⟩
  have spared : .free t ∉ acc := by
    intro member
    rcases (loop.frees t).mp member with ⟨j, _, under⟩
    exact under.of_snoc.ne_table tree reached rfl
  rw [read, swept.slot_eq base tree.base spared (by simp), target]
  exact swept.trans tree.base
    (sweep.trans tree.base (swept_free within (top.pageBase tree) (top.ne_root tree)))

theorem level3Body_swept (tree : TableTree m root) (within : FreeEffect effect)
    (depth : path.length = 1) (reached : pageAt m root path = some t) (w : Sweep) (i : Fin 512)
    (intact : Intact m root path t [i] w) :
    Swept root w (Sweep.level3Body effect t w i) (level3Accesses m t i) [] := by
  have base := pageAt_pageBase tree.base reached
  rcases swept_entry root w i base with ⟨read1, sweep1⟩
  rw [intact.here i (by simp)] at read1
  have intact1 := intact_of_swept tree reached intact sweep1 (by simp)
  rcases swept_entry root (w.entry t i).2 i base with ⟨read2, sweep2⟩
  rw [intact1.here i (by simp)] at read2
  have intact2 := intact_of_swept tree reached intact1 sweep2 (by simp)
  unfold Sweep.level3Body level3Accesses tableAccesses
  simp only [read1, read2, nextTable]
  cases points : (slot m t i).present && !(slot m t i).pageSize with
  | false => exact sweep1
  | true =>
      have found := pageAt_points reached (by omega) points
      have top : Under m root (path ++ [i]) (slot m t i).target :=
        ⟨_, List.prefix_refl _, by simp [depth], found⟩
      have orderly := level2_orderly (by simp [depth]) found
      have loop := foldl_swept tree found orderly (by simp)
        (level2Body_swept tree within (by simp [depth]) found) (List.nodup_finRange 512)
        ⟨fun j _ => intact2.below i (by simp) _ top j,
          fun j _ page under => intact2.below i (by simp) page under.of_snoc⟩
      rw [show (List.finRange 512).flatMap (fun _ => ([] : List (Fin 512))) = [] by simp] at loop
      have target := congrArg PageTableEntry.target (intact2.here i (List.mem_singleton.mpr rfl))
      have finish := free_child_swept tree within (by omega) reached found
        (orderly_flatMap tree found orderly (List.nodup_finRange 512)) loop target
      have whole := sweep1.trans tree.base (sweep2.trans tree.base finish)
      simpa only [if_true, List.cons_append, List.nil_append] using whole

theorem level4_tail_swept (tree : TableTree m root) (within : FreeEffect effect) {w : Sweep}
    {i : Fin 512} (points : (slot m root i).present = true)
    (cleared : slot w.kernel.mem root i = clear (slot m root i))
    (below : ∀ page, Under m root ([] ++ [i]) page →
      ∀ j, slot w.kernel.mem page j = slot m page j) :
    let looped := (List.finRange 512).foldl (Sweep.level3Body effect (w.entry root i).1.target)
      (w.entry root i).2
    Swept root w ((looped.entry root i).2.free effect (looped.entry root i).1.target)
      ([.read root] ++ ((List.finRange 512).flatMap (level3Accesses m (slot m root i).target) ++
        [.read root, .free (slot m root i).target])) [] := by
  have reached : pageAt m root [] = some root := rfl
  have found : pageAt m root ([] ++ [i]) = some (slot m root i).target := by
    rw [pageAt_snoc reached]
    simp [nextTable, points]
  have top : Under m root ([] ++ [i]) (slot m root i).target :=
    ⟨_, List.prefix_refl _, by simp, found⟩
  rcases swept_entry root w i tree.base with ⟨read, sweep⟩
  have target : (w.entry root i).1.target = (slot m root i).target := by
    rw [read, cleared]
    rfl
  rw [target]
  have same : ∀ {page}, PageBase page → ∀ j, slot (w.entry root i).2.kernel.mem page j =
      slot w.kernel.mem page j :=
    fun base j => sweep.slot_eq base tree.base (by simp) (by simp)
  have orderly := level3_orderly tree (by simp) found
  have loop := foldl_swept tree found orderly (by simp)
    (level3Body_swept tree within (by simp) found)
    (List.nodup_finRange 512)
    ⟨fun j _ => (same (top.pageBase tree) j).trans (below _ top j),
      fun j _ page under slotIndex =>
        (same (under.pageBase tree) slotIndex).trans (below page under.of_snoc slotIndex)⟩
  rw [show (List.finRange 512).flatMap (fun _ => ([] : List (Fin 512))) = [] by simp] at loop
  have finish := free_child_swept tree within (by simp) reached found
    (orderly_flatMap tree found orderly (List.nodup_finRange 512)) loop
    (by rw [same tree.base, cleared]; rfl)
  exact sweep.trans tree.base finish

theorem level4Body_swept (tree : TableTree m root) (within : FreeEffect effect) (w : Sweep)
    (i : Fin 512) (intact : Intact m root [] root [i] w) :
    Swept root w (Sweep.level4Body effect root w i) (level4Accesses m root i) [i] := by
  have reached : pageAt m root [] = some root := rfl
  rcases swept_entry root w i tree.base with ⟨read1, sweep1⟩
  rw [intact.here i (by simp)] at read1
  have intact1 := intact_of_swept tree reached intact sweep1 (by simp)
  cases points : (slot m root i).present with
  | false =>
      have skip : Sweep.level4Body effect root w i = (w.entry root i).2 := by
        simp [Sweep.level4Body, read1, points]
      have alone : level4Accesses m root i = [.read root] := by
        simp [level4Accesses, tableAccesses, nextTable, points]
      rw [skip, alone]
      refine ⟨sweep1.trace, sweep1.pages, fun n outside _ => sweep1.kept n outside (by simp), ?_⟩
      intro c member
      rw [List.mem_singleton.mp member, intact1.here i (by simp), points]
  | true =>
      rcases swept_clear (w.entry root i).2 i tree.base with ⟨cleared, sweep2⟩
      rw [intact1.here i (by simp)] at cleared
      have rest := level4_tail_swept tree within points cleared (by
        intro page under j
        rw [sweep2.slot_eq (under.pageBase tree) tree.base (by simp)
          (fun same => absurd same (under.ne_root tree))]
        exact intact1.below i (by simp) page under j)
      have whole := sweep1.trans tree.base (sweep2.trans tree.base rest)
      simpa only [Sweep.level4Body, level4Accesses, tableAccesses, nextTable, read1,
        points, if_true,
        List.cons_append, List.nil_append, List.append_nil] using whole

end Loops

theorem mem_lowerIndices {i : Fin 512} : i ∈ lowerIndices ↔ i.val < 256 := by
  unfold lowerIndices
  rw [List.mem_map]
  constructor
  · rintro ⟨j, _, rfl⟩
    exact j.isLt
  · exact fun small => ⟨⟨i.val, small⟩, List.mem_finRange _, rfl⟩

theorem lowerIndices_nodup : lowerIndices.Nodup :=
  (List.nodup_finRange 256).map (Fin.castLE_injective _)

structure Reclaims (root : Nat) (data : Set Nat) (k : Kernel) (w : Sweep) : Prop where
  lower : ∀ address, LowerHalf address → walk w.kernel.mem root address = none
  higher : ∀ address, ¬ LowerHalf address →
    walk w.kernel.mem root address = walk k.mem root address
  once : (freed w.trace).Nodup
  tables : ∀ page, page ∈ freed w.trace ↔
    ∃ path, path ≠ [] ∧ LowerPath path ∧ path.length < 4 ∧ pageAt k.mem root path = some page
  frames : ∀ address ∈ data, ∀ mapping, walk k.mem root address = some mapping →
    mapping.frame ∉ freed w.trace
  order : w.trace.Pairwise Fresh

section Reclaim

variable {k : Kernel} {root : Nat} {effect : Kernel → Nat → Kernel}

theorem lowerPath_cons {i : Fin 512} {path : List (Fin 512)} :
    LowerPath (i :: path) ↔ i.val < 256 := by
  simp [LowerPath]

theorem under_lower (m : Mem) (root page : Nat) :
    (∃ i ∈ lowerIndices, Under m root ([] ++ [i]) page) ↔
    ∃ path, path ≠ [] ∧ LowerPath path ∧ path.length < 4 ∧ pageAt m root path = some page := by
  constructor
  · rintro ⟨i, listed, path, ⟨rest, rfl⟩, short, reached⟩
    exact ⟨_, by simp, lowerPath_cons.mpr (mem_lowerIndices.mp listed), short, reached⟩
  · rintro ⟨path, nonempty, lower, short, reached⟩
    cases path with
    | nil => exact absurd rfl nonempty
    | cons i rest =>
        exact ⟨i, mem_lowerIndices.mpr (lowerPath_cons.mp lower), i :: rest, ⟨rest, rfl⟩,
          short, reached⟩

theorem unmapLowerHalf_swept (within : FreeEffect effect) (tree : TableTree k.mem root) :
    Swept root ⟨k, []⟩ (k.unmapLowerHalfWith effect root)
      (lowerIndices.flatMap (level4Accesses k.mem root)) lowerIndices := by
  have loop := foldl_swept tree rfl (level4_orderly tree)
    (fun i c member => ⟨rfl, List.mem_singleton.mp member⟩) (level4Body_swept tree within)
    lowerIndices_nodup (w := ⟨k, []⟩) ⟨fun _ _ => rfl, fun _ _ _ _ _ => rfl⟩
  rw [List.flatMap_singleton'] at loop
  unfold Kernel.unmapLowerHalfWith
  exact ⟨loop.trace, loop.pages, loop.kept, loop.absent⟩

/-- Whatever `pmem_free` overwrites, the lower half is gone, the higher half stays, and each
lower-half table is freed once, after its last read. -/
theorem unmapLowerHalf_reclaims (within : FreeEffect effect) (tree : TableTree k.mem root)
    {data : Set Nat} (apart : ∀ address ∈ data, ∀ mapping, walk k.mem root address = some mapping →
      ∀ path, LowerPath path → path.length < 4 → pageAt k.mem root path ≠ some mapping.frame) :
    Reclaims root data k (k.unmapLowerHalfWith effect root) := by
  have reached : pageAt k.mem root [] = some root := rfl
  have loop := orderly_flatMap tree reached (level4_orderly tree) lowerIndices_nodup
  have swept := unmapLowerHalf_swept within tree
  generalize k.unmapLowerHalfWith effect root = w at swept ⊢
  have trace : w.trace = lowerIndices.flatMap (level4Accesses k.mem root) := by
    rw [swept.trace, List.nil_append]
  have listed : ∀ page, .free page ∈ lowerIndices.flatMap (level4Accesses k.mem root) ↔
      ∃ path, path ≠ [] ∧ LowerPath path ∧ path.length < 4 ∧ pageAt k.mem root path = some page :=
    fun page => (loop.frees page).trans (under_lower k.mem root page)
  refine ⟨?_, ?_, trace ▸ loop.once, fun page => by rw [mem_freed, trace, listed], ?_,
    trace ▸ loop.order⟩
  · intro address lower
    have absent := swept.absent (level4 address) (mem_lowerIndices.mpr lower)
    simp [walk, absent]
  · intro address higher
    apply walk_congr
    apply entries_congr
    intro before i after table split found
    have short : before.length < 4 := by
      have size := congrArg List.length split
      simp only [indices, List.length_cons, List.length_nil, List.length_append] at size
      omega
    have head : ∀ j ∈ (before ++ [i]).head?, ¬ j.val < 256 := by
      intro j member
      have top : j = level4 address := by
        cases before with
        | nil =>
            simp only [indices, List.nil_append, List.cons.injEq] at split
            simpa [split.1] using member.symm
        | cons first rest =>
            simp only [indices, List.cons_append, List.cons.injEq] at split
            simpa [split.1] using member.symm
      rw [top]
      exact higher
    apply swept.slot_eq (pageAt_pageBase tree.base found) tree.base
    · intro member
      rcases (listed table).mp member with ⟨path, nonempty, lower, shortPath, atPath⟩
      have same := tree.unshared path before table shortPath short atPath found
      subst same
      cases path with
      | nil => exact nonempty rfl
      | cons first rest => exact head first (by simp) (lowerPath_cons.mp lower)
    · intro same member
      have front := tree.unshared before [] root short (by simp) (same ▸ found) reached
      subst front
      exact head i (by simp) (mem_lowerIndices.mp member)
  · intro address member mapping mapped inside
    rw [mem_freed, trace, listed] at inside
    rcases inside with ⟨path, _, lower, short, found⟩
    exact apart address member mapping mapped path lower short found

end Reclaim

theorem bare_unmapLowerHalf_reclaims :
    ∃ k, bareKernel.vmMap 0x1000 0x400000 true true false = (k, true) ∧
      Reclaims 0x1000 Set.univ k (k.unmapLowerHalfWith Kernel.pmemFree 0x1000) := by
  rcases bare_mapped with ⟨k, free, frame, call, grown, mapped⟩
  have tree : TableTree k.mem 0x1000 := by
    have wf := mapped_wellFormed grown
    exact ⟨wf.base, fun left right page shortLeft shortRight =>
      wf.unshared left right page shortLeft shortRight⟩
  exact ⟨k, call, unmapLowerHalf_reclaims pmemFree_effect tree
    fun _ _ _ found path _ short => mapped_frame grown mapped found path short⟩

/-! The kernel's own `pmem_free` returns on every table, so only entries of the root change. -/

structure Cleared (owned : List (Fin 512) → Prop) (root : Nat) (free : List Nat)
    (is : List (Fin 512)) (k k' : Kernel) : Prop where
  wellFormed : WellFormed owned k' root free
  fewer : ∀ path page, pageAt k'.mem root path = some page → pageAt k.mem root path = some page
  absent : ∀ i ∈ is, pageAt k'.mem root [i] = none
  others : ∀ b, level4 b ∉ is → walk k'.mem root b = walk k.mem root b
  bytes : ∀ n, n < root ∨ root + 4096 ≤ n → k'.mem n = k.mem n
  offset : k'.virtualOffset = k.virtualOffset
  active : k'.cr3 = k.cr3

section Cleared

variable {owned : List (Fin 512) → Prop} {root : Nat} {free : List Nat} {k : Kernel}

theorem free_kernel (w : Sweep) (e : PageTableEntry) :
    (w.free Kernel.pmemFree e.target).kernel = w.kernel := by
  have freed : ∀ effect : Kernel → Nat → Kernel,
      (w.free effect e.target).kernel = effect w.kernel e.target := fun _ => rfl
  rw [freed, w.kernel.pmemFree_aligned _ e.target_aligned]

theorem foldl_kernel {body : Sweep → Fin 512 → Sweep} (same : ∀ w i, (body w i).kernel = w.kernel)
    (is : List (Fin 512)) (w : Sweep) : (is.foldl body w).kernel = w.kernel := by
  induction is generalizing w with
  | nil => rfl
  | cons i rest ih => exact (ih (body w i)).trans (same w i)

theorem level2Body_kernel (l2Table : Nat) (w : Sweep) (i : Fin 512) :
    (Sweep.level2Body Kernel.pmemFree l2Table w i).kernel = w.kernel := by
  simp only [Sweep.level2Body]
  split
  · exact free_kernel _ _
  · rfl

theorem level3Body_kernel (l3Table : Nat) (w : Sweep) (i : Fin 512) :
    (Sweep.level3Body Kernel.pmemFree l3Table w i).kernel = w.kernel := by
  unfold Sweep.level3Body
  generalize List.finRange 512 = is
  simp only [Sweep.entry, apply_ite Sweep.kernel, free_kernel,
    foldl_kernel (level2Body_kernel _), ite_self]

def Kernel.clearRoot (root : Nat) (k : Kernel) (i : Fin 512) : Kernel :=
  k.cutEntry (slot k.mem root i).present root i

theorem level4Body_kernel (bound : root < 2 ^ 52) (w : Sweep) (i : Fin 512) :
    (Sweep.level4Body Kernel.pmemFree root w i).kernel = w.kernel.clearRoot root i := by
  have entry := w.kernel.loadEntry_eq_slot i bound
  unfold Sweep.level4Body
  generalize List.finRange 512 = is
  simp only [Sweep.entry, entry, apply_ite Sweep.kernel, free_kernel,
    foldl_kernel (level3Body_kernel _), w.kernel.storeEntry_eq_setSlot _ _ bound, Kernel.clearRoot]
  cases (slot w.kernel.mem root i).present <;> rfl

theorem unmapLowerHalf_eq (bound : root < 2 ^ 52) :
    k.unmapLowerHalf root =
      (lowerIndices.foldl (Kernel.clearRoot root) k).writeCr3
        (lowerIndices.foldl (Kernel.clearRoot root) k).cr3 := by
  have loop : lowerIndices.foldl (Kernel.clearRoot root) (Sweep.mk k []).kernel =
      (lowerIndices.foldl (Sweep.level4Body Kernel.pmemFree root) ⟨k, []⟩).kernel :=
    List.foldl_hom Sweep.kernel fun w i => (level4Body_kernel bound w i).symm
  simp only [Kernel.unmapLowerHalf, Kernel.unmapLowerHalfWith, ← loop]

theorem clearRoot_cleared (wf : WellFormed owned k root free) (i : Fin 512) :
    Cleared owned root free [i] k (k.clearRoot root i) := by
  have reached : pageAt k.mem root [] = some root := rfl
  have tree : WellFormed TablePath k root free := wf.mono (fun path short => wf.tables path short)
    (fun _ short => short)
  cases present : (slot k.mem root i).present with
  | false =>
      have skip : k.clearRoot root i = k := by rw [Kernel.clearRoot, present, cutEntry_false]
      rw [skip]
      refine ⟨wf, fun _ _ found => found, fun j member => ?_, fun _ _ => rfl, fun _ _ =>
        rfl, rfl, rfl⟩
      rw [List.mem_singleton.mp member]
      exact pageAt_absent reached present
  | true =>
      have here : k.clearRoot root i = k.cutEntry true root i := by rw [Kernel.clearRoot, present]
      rw [here]
      constructor
      · exact wf.rewriteSlot reached fun _ _ found => (cut_fewer tree (by simp) reached found).1
      · exact fun path page found => (cut_fewer tree (by simp) reached found).1
      · intro j member
        obtain rfl := List.mem_singleton.mp member
        cases found : pageAt (k.cutEntry true root j).mem root [j] with
        | none => rfl
        | some page => exact absurd (List.prefix_refl _) (cut_fewer tree (by simp) reached found).2
      · intro b off
        apply cut_outside tree (by simp) reached
        rintro ⟨tail, split⟩
        simp only [indices, List.nil_append, List.cons_append, List.cons.injEq] at split
        exact off (List.mem_singleton.mpr split.1.symm)
      · intro n outside
        have inside := i.isLt
        exact setSlot_agreeOutside k.mem root i _ n (by omega)
      · rfl
      · rfl

theorem Cleared.cons {i : Fin 512} {is : List (Fin 512)} {k1 k2 : Kernel}
    (first : Cleared owned root free [i] k k1) (later : Cleared owned root free is k1 k2) :
    Cleared owned root free (i :: is) k k2 := by
  constructor
  · exact later.wellFormed
  · exact fun path page found => first.fewer path page (later.fewer path page found)
  · intro j member
    rcases List.mem_cons.mp member with rfl | inside
    · have gone := first.absent j List.mem_cons_self
      cases found : pageAt k2.mem root [j] with
      | none => rfl
      | some page => cases gone.symm.trans (later.fewer [j] page found)
    · exact later.absent j inside
  · intro b off
    rw [List.mem_cons, not_or] at off
    rw [later.others b off.2, first.others b fun member => off.1 (List.mem_singleton.mp member)]
  · exact fun n outside => (later.bytes n outside).trans (first.bytes n outside)
  · exact later.offset.trans first.offset
  · exact later.active.trans first.active

theorem foldl_cleared (is : List (Fin 512)) {k : Kernel} (wf : WellFormed owned k root free) :
    Cleared owned root free is k (is.foldl (Kernel.clearRoot root) k) := by
  induction is generalizing k with
  | nil => exact ⟨wf, fun _ _ reached => reached, by simp, fun _ _ => rfl, fun _ _ => rfl, rfl, rfl⟩
  | cons i rest ih =>
      have first := clearRoot_cleared wf i
      exact first.cons (ih first.wellFormed)

theorem Cleared.flushed {k' : Kernel} (cleared : Cleared owned root free lowerIndices k k') :
    Cleared owned root free lowerIndices k (k'.writeCr3 k'.cr3) ∧
      LowerHalfEmpty (k'.writeCr3 k'.cr3).mem root ∧ (k'.writeCr3 k'.cr3).tlb = fun _ => none := by
  refine ⟨{ cleared with wellFormed := { cleared.wellFormed with } }, ?_, rfl⟩
  intro i lower
  have absent := cleared.absent i (mem_lowerIndices.mpr lower)
  have reached : pageAt k'.mem root [] = some root := rfl
  exact absent_of_pageAt reached (by simp) (by simp) absent

theorem unmapLowerHalf_cleared (wf : WellFormed owned k root free) :
    ∃ k', k.unmapLowerHalf root = k' ∧ Cleared owned root free lowerIndices k k' ∧
      LowerHalfEmpty k'.mem root ∧ k'.tlb = fun _ => none := by
  exact ⟨_, unmapLowerHalf_eq wf.base.2, (foldl_cleared lowerIndices wf).flushed⟩

end Cleared

end PaintKernel
