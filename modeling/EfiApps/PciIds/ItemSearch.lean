import EfiApps.PciIds.Lifetime
import EfiApps.PciIds.Names

/-!
# Looking up names among items

`GetPciIdsNames` is a search on each of three levels, among the children of what
the search before has found.  If the children of every item ascend, a search finds
the one child with the value, so the names are those of the items on the way.

This does not need a text that the items come from.
-/

namespace EfiApps
namespace PciIds

open Relation

/-! ## What is read -/

/-- The values of `TestIndex` in the loop of `PciIdsSearch`, one for each read. -/
def pciIdsSearchLoopReads (children : Nat → PciIdItem) (value : UInt64) (minIndex maxIndex : Nat) :
    List Nat :=
  if minIndex < maxIndex then
    if (children ((maxIndex + minIndex) >>> 1)).value = value then [(maxIndex + minIndex) >>> 1]
    else if (children ((maxIndex + minIndex) >>> 1)).value < value then
      ((maxIndex + minIndex) >>> 1) ::
        pciIdsSearchLoopReads children value ((maxIndex + minIndex) >>> 1 + 1) maxIndex
    else
      ((maxIndex + minIndex) >>> 1) ::
        pciIdsSearchLoopReads children value minIndex ((maxIndex + minIndex) >>> 1)
  else []
termination_by maxIndex - minIndex
decreasing_by all_goals (rw [Nat.shiftRight_eq_div_pow]; omega)

/-- The reads of `PciIdsSearch`: the item whose `Children` are read, and the index. -/
def pciIdsSearchReads (items : ItemMemory) (pciIds : Option PciIdItem) (value : UInt64) :
    List (PciIdItem × Nat) :=
  match pciIds with
  | none => []
  | some item =>
      match item.children with
      | none => []
      | some first =>
          (pciIdsSearchLoopReads (fun i => items first.block (first.offset + i)) value 0
            item.numChildren).map fun i => (item, i)

/-- The reads of `GetPciIdsNames`. -/
def getPciIdsNamesReads (items : ItemMemory) (pciIds : Option PciIdItem)
    (value1 value2 value3 : UInt64) : List (PciIdItem × Nat) :=
  let item1 := pciIdsSearch items pciIds value1
  let item2 := pciIdsSearch items item1 value2
  pciIdsSearchReads items pciIds value1 ++ pciIdsSearchReads items item1 value2 ++
    pciIdsSearchReads items item2 value3

section reads

variable {children children' : Nat → PciIdItem} {value : UInt64} {minIndex maxIndex : Nat}

/-- The loop reads inside of its window. -/
theorem mem_pciIdsSearchLoopReads :
    ∀ i ∈ pciIdsSearchLoopReads children value minIndex maxIndex, minIndex ≤ i ∧ i < maxIndex := by
  fun_induction pciIdsSearchLoopReads children value minIndex maxIndex with
  | case1 minIndex maxIndex hlt heq =>
      intro i hi
      obtain rfl := List.mem_singleton.mp hi
      rw [Nat.shiftRight_eq_div_pow]
      omega
  | case2 minIndex maxIndex hlt hne hless ih =>
      intro i hi
      rw [Nat.shiftRight_eq_div_pow] at hi ih
      rcases List.mem_cons.mp hi with rfl | hi
      · omega
      · have hright := ih i hi
        omega
  | case3 minIndex maxIndex hlt hne hmore ih =>
      intro i hi
      rw [Nat.shiftRight_eq_div_pow] at hi ih
      rcases List.mem_cons.mp hi with rfl | hi
      · omega
      · have hleft := ih i hi
        omega
  | case4 minIndex maxIndex hnot =>
      intro i hi
      cases hi

/-- What the loop finds depends on nothing but what it reads. -/
theorem pciIdsSearchLoop_congr
    (hsame : ∀ i ∈ pciIdsSearchLoopReads children value minIndex maxIndex,
      children' i = children i) :
    pciIdsSearchLoop children' value minIndex maxIndex =
      pciIdsSearchLoop children value minIndex maxIndex := by
  fun_induction pciIdsSearchLoopReads children value minIndex maxIndex with
  | case1 minIndex maxIndex hlt heq =>
      have hmid := hsame _ (List.mem_singleton.mpr rfl)
      rw [pciIdsSearchLoop, pciIdsSearchLoop.eq_def children, if_pos hlt, if_pos hlt, hmid,
        if_pos heq, if_pos heq]
  | case2 minIndex maxIndex hlt hne hless ih =>
      obtain ⟨hmid, hrest⟩ := List.forall_mem_cons.mp hsame
      rw [pciIdsSearchLoop, pciIdsSearchLoop.eq_def children, if_pos hlt, if_pos hlt, hmid,
        if_neg hne, if_neg hne, if_pos hless, if_pos hless]
      exact ih hrest
  | case3 minIndex maxIndex hlt hne hmore ih =>
      obtain ⟨hmid, hrest⟩ := List.forall_mem_cons.mp hsame
      rw [pciIdsSearchLoop, pciIdsSearchLoop.eq_def children, if_pos hlt, if_pos hlt, hmid,
        if_neg hne, if_neg hne, if_neg hmore, if_neg hmore]
      exact ih hrest
  | case4 minIndex maxIndex hnot =>
      rw [pciIdsSearchLoop, pciIdsSearchLoop.eq_def children, if_neg hnot, if_neg hnot]

end reads

variable {items : ItemMemory} {root item child : PciIdItem} {value value1 value2 value3 : UInt64}

/-- `PciIdsSearch` reads children that there are. -/
theorem mem_pciIdsSearchReads {pciIds : Option PciIdItem} :
    ∀ r ∈ pciIdsSearchReads items pciIds value, r.2 < r.1.numChildren := by
  intro r hr
  unfold pciIdsSearchReads at hr
  split at hr
  · cases hr
  · split at hr
    · cases hr
    · obtain ⟨i, hi, rfl⟩ := List.mem_map.mp hr
      exact (mem_pciIdsSearchLoopReads i hi).2

theorem mem_getPciIdsNamesReads {pciIds : Option PciIdItem} :
    ∀ r ∈ getPciIdsNamesReads items pciIds value1 value2 value3, r.2 < r.1.numChildren := by
  intro r hr
  rcases List.mem_append.mp hr with hr | hr
  · rcases List.mem_append.mp hr with hr | hr
    · exact mem_pciIdsSearchReads r hr
    · exact mem_pciIdsSearchReads r hr
  · exact mem_pciIdsSearchReads r hr

/-! ## What is found -/

/-- The children of an item ascend. -/
def SortedChildren (items : ItemMemory) (item : PciIdItem) : Prop :=
  ∀ first i j, item.children = some first → i < j → j < item.numChildren →
    (items first.block (first.offset + i)).value < (items first.block (first.offset + j)).value

/-- The children of every item of the tree ascend. -/
def SortedItems (items : ItemMemory) (root : PciIdItem) : Prop :=
  ∀ item, ReflTransGen (IsChild items) root item → SortedChildren items item

/-- Every item below the root has a name. -/
def NamedItems (items : ItemMemory) (root : PciIdItem) : Prop :=
  ∀ item, TransGen (IsChild items) root item → item.name ≠ none

/-- A child with a value. -/
def ChildWith (items : ItemMemory) (item : PciIdItem) (value : UInt64) (child : PciIdItem) : Prop :=
  IsChild items item child ∧ child.value = value

/-- The item with the first value, then the second one below it, and so on. -/
def DescendantWith (items : ItemMemory) : PciIdItem → List UInt64 → PciIdItem → Prop
  | root, [], item => item = root
  | root, value :: values, item =>
      ∃ child, ChildWith items root value child ∧ DescendantWith items child values item

/-- The search finds a child with the value, if there is one. -/
theorem pciIdsSearch_eq_some_iff (h : SortedChildren items item) :
    pciIdsSearch items (some item) value = some child ↔ ChildWith items item value child := by
  cases hfirst : item.children with
  | none =>
      rw [pciIdsSearch, hfirst]
      constructor
      · intro hnone
        cases hnone
      · rintro ⟨⟨first, i, hsome, -⟩, -⟩
        rw [hfirst] at hsome
        cases hsome
  | some first =>
      have hasc : BinarySearch.AscendsBetween
          (fun i => (items first.block (first.offset + i)).value.toNat) 0 item.numChildren :=
        fun i j _ hij hj => UInt64.lt_iff_toNat_lt.mp (h first i j hfirst hij hj)
      rw [pciIdsSearch, hfirst]
      dsimp only
      rw [pciIdsSearchLoop_eq, Option.map_eq_some_iff]
      constructor
      · rintro ⟨i, hi, rfl⟩
        obtain ⟨-, hlt, heq⟩ := BinarySearch.search_sound hi
        exact ⟨⟨first, i, hfirst, hlt, rfl⟩, UInt64.toNat_inj.mp heq⟩
      · rintro ⟨⟨first', i, hfirst', hlt, rfl⟩, heq⟩
        obtain rfl := Option.some.inj (hfirst.symm.trans hfirst')
        exact ⟨i, BinarySearch.search_complete hasc (Nat.zero_le i) hlt (congrArg _ heq), rfl⟩

theorem DescendantWith.below {values : List UInt64} (h : DescendantWith items root values item) :
    ReflTransGen (IsChild items) root item := by
  induction values generalizing root with
  | nil =>
      obtain rfl : item = root := h
      exact .refl
  | cons value values ih =>
      obtain ⟨child, hchild, hitem⟩ := h
      exact .head hchild.1 (ih hitem)

theorem DescendantWith.below_root {values : List UInt64}
    (h : DescendantWith items root (value :: values) item) :
    TransGen (IsChild items) root item := by
  obtain ⟨child, hchild, hitem⟩ := h
  exact .head' hchild.1 hitem.below

theorem descendantWith_concat_iff {values : List UInt64} :
    DescendantWith items root (values ++ [value]) child ↔
      ∃ item, DescendantWith items root values item ∧ ChildWith items item value child := by
  induction values generalizing root with
  | nil =>
      constructor
      · rintro ⟨item, hitem, hchild⟩
        obtain rfl : child = item := hchild
        exact ⟨root, rfl, hitem⟩
      · rintro ⟨item, hitem, hchild⟩
        obtain rfl : item = root := hitem
        exact ⟨child, hchild, rfl⟩
  | cons value' values ih =>
      constructor
      · rintro ⟨next, hnext, hrest⟩
        obtain ⟨item, hitem, hchild⟩ := ih.mp hrest
        exact ⟨item, ⟨next, hnext, hitem⟩, hchild⟩
      · rintro ⟨item, ⟨next, hnext, hitem⟩, hchild⟩
        exact ⟨next, hnext, ih.mpr ⟨item, hitem, hchild⟩⟩

/-- A search among the children of what has been found goes down one level. -/
theorem pciIdsSearch_descendantWith (h : SortedItems items root) {item? : Option PciIdItem}
    {values : List UInt64} (hitem : ∀ item, item? = some item ↔ DescendantWith items root values item)
    (value : UInt64) (child : PciIdItem) :
    pciIdsSearch items item? value = some child ↔
      DescendantWith items root (values ++ [value]) child := by
  rw [descendantWith_concat_iff]
  cases item? with
  | none =>
      constructor
      · intro hnone
        cases hnone
      · rintro ⟨item, hfound, -⟩
        cases (hitem item).mpr hfound
  | some item =>
      have hfound := (hitem item).mp rfl
      rw [pciIdsSearch_eq_some_iff (h item hfound.below)]
      constructor
      · intro hchild
        exact ⟨item, hfound, hchild⟩
      · rintro ⟨item', hfound', hchild⟩
        obtain rfl := Option.some.inj ((hitem item').mpr hfound')
        exact hchild

/-- The name is that of the item that is found, and `NULL` if there is none. -/
structure NameOf (found : PciIdItem → Prop) (name : Option Ptr) : Prop where
  of_found : ∀ item, found item → name = item.name
  of_missing : (¬ ∃ item, found item) → name = none

/-- The names are those of the items on the three levels. -/
structure NamesFound (items : ItemMemory) (root : PciIdItem) (value1 value2 value3 : UInt64)
    (names : Names) : Prop where
  name1 : NameOf (DescendantWith items root [value1]) names.name1
  name2 : NameOf (DescendantWith items root [value1, value2]) names.name2
  name3 : NameOf (DescendantWith items root [value1, value2, value3]) names.name3

theorem NameOf.of_iff {found : PciIdItem → Prop} {item? : Option PciIdItem}
    (h : ∀ item, item? = some item ↔ found item) : NameOf found (item?.bind PciIdItem.name) where
  of_found item hfound := by rw [(h item).mpr hfound, Option.bind_some]
  of_missing hmissing := by
    cases hitem : item? with
    | none => rfl
    | some item => exact absurd ⟨item, (h item).mp hitem⟩ hmissing

/-- The name is `NULL` only if there is no item, if the items have names. -/
theorem NameOf.eq_none_iff {found : PciIdItem → Prop} {name : Option Ptr} (h : NameOf found name)
    (hnamed : ∀ item, found item → item.name ≠ none) : name = none ↔ ¬ ∃ item, found item := by
  constructor
  · rintro hnone ⟨item, hfound⟩
    exact hnamed item hfound ((h.of_found item hfound).symm.trans hnone)
  · exact h.of_missing

theorem namesFound_getPciIdsNames (h : SortedItems items root) (value1 value2 value3 : UInt64) :
    NamesFound items root value1 value2 value3
      (getPciIdsNames items (some root) value1 value2 value3) := by
  have hroot : ∀ item, some root = some item ↔ DescendantWith items root [] item :=
    fun item => Option.some_inj.trans eq_comm
  have hfound1 := pciIdsSearch_descendantWith h hroot value1
  have hfound2 := pciIdsSearch_descendantWith h hfound1 value2
  have hfound3 := pciIdsSearch_descendantWith h hfound2 value3
  rw [getPciIdsNames_eq]
  exact ⟨.of_iff hfound1, .of_iff hfound2, .of_iff hfound3⟩

/-- In a tree whose children ascend `GetPciIdsNames` reads only children that there
are.  The names are those of the items with the three values, one below the other,
and a name is `NULL` exactly if there is no such item, in a tree of items that have
names. -/
theorem getPciIdsNames_sorted (h : SortedItems items root) (value1 value2 value3 : UInt64) :
    (∀ r ∈ getPciIdsNamesReads items (some root) value1 value2 value3, r.2 < r.1.numChildren) ∧
      NamesFound items root value1 value2 value3
        (getPciIdsNames items (some root) value1 value2 value3) ∧
      (NamedItems items root →
        let names := getPciIdsNames items (some root) value1 value2 value3
        (names.name1 = none ↔ ¬ ∃ item, DescendantWith items root [value1] item) ∧
          (names.name2 = none ↔ ¬ ∃ item, DescendantWith items root [value1, value2] item) ∧
          (names.name3 = none ↔
            ¬ ∃ item, DescendantWith items root [value1, value2, value3] item)) := by
  have hnames := namesFound_getPciIdsNames h value1 value2 value3
  refine ⟨mem_getPciIdsNamesReads, hnames, fun hnamed => ⟨?_, ?_, ?_⟩⟩
  · exact hnames.name1.eq_none_iff fun item hitem => hnamed item hitem.below_root
  · exact hnames.name2.eq_none_iff fun item hitem => hnamed item hitem.below_root
  · exact hnames.name3.eq_none_iff fun item hitem => hnamed item hitem.below_root

/-- Two items, the first of which has a child. -/
def smallItems : ItemMemory := fun block i =>
  match block, i with
  | 0, 0 => { value := 3, name := some ⟨9, 0⟩, numChildren := 1, children := some ⟨1, 0⟩ }
  | 0, 1 => { value := 7, name := some ⟨9, 5⟩ }
  | 1, 0 => { value := 2, name := some ⟨9, 8⟩ }
  | _, _ => {}

/-- The root of the two items. -/
def smallRoot : PciIdItem := { numChildren := 2, children := some ⟨0, 0⟩ }

theorem sortedItems_smallItems : SortedItems smallItems smallRoot := by
  have hbelow : ∀ item, ReflTransGen (IsChild smallItems) smallRoot item →
      item = smallRoot ∨ item = smallItems 0 0 ∨ item.children = none := by
    intro item hitem
    induction hitem with
    | refl => exact .inl rfl
    | tail _ hchild ih =>
        obtain ⟨first, i, hfirst, hi, rfl⟩ := hchild
        rcases ih with rfl | rfl | hnone
        · obtain rfl := Option.some.inj hfirst
          have hi' : i = 0 ∨ i = 1 := by
            have : i < 2 := hi
            omega
          rcases hi' with rfl | rfl
          · exact .inr (.inl rfl)
          · exact .inr (.inr rfl)
        · obtain rfl := Option.some.inj hfirst
          obtain rfl : i = 0 := by
            have : i < 1 := hi
            omega
          exact .inr (.inr rfl)
        · rw [hnone] at hfirst
          cases hfirst
  intro item hitem first i j hfirst hij hj
  rcases hbelow item hitem with rfl | rfl | hnone
  · obtain rfl := Option.some.inj hfirst
    have hj' : j < 2 := hj
    obtain ⟨rfl, rfl⟩ : i = 0 ∧ j = 1 := by omega
    decide
  · have hj' : j < 1 := hj
    omega
  · rw [hnone] at hfirst
    cases hfirst

theorem getPciIdsNames_sorted_small :
    (∀ r ∈ getPciIdsNamesReads smallItems (some smallRoot) 3 2 5, r.2 < r.1.numChildren) ∧
      (getPciIdsNames smallItems (some smallRoot) 3 2 5).name1 = some ⟨9, 0⟩ ∧
      (getPciIdsNames smallItems (some smallRoot) 3 2 5).name2 = some ⟨9, 8⟩ := by
  obtain ⟨hreads, hnames, -⟩ := getPciIdsNames_sorted sortedItems_smallItems 3 2 5
  have hfirst : ChildWith smallItems smallRoot 3 (smallItems 0 0) :=
    ⟨⟨⟨0, 0⟩, 0, rfl, by decide, rfl⟩, rfl⟩
  have hsecond : ChildWith smallItems (smallItems 0 0) 2 (smallItems 1 0) :=
    ⟨⟨⟨1, 0⟩, 0, rfl, by decide, rfl⟩, rfl⟩
  exact ⟨hreads, hnames.name1.of_found _ ⟨_, hfirst, rfl⟩,
    hnames.name2.of_found _ ⟨_, hfirst, _, hsecond, rfl⟩⟩

end PciIds
end EfiApps
