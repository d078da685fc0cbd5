import EfiApps.Lib.BinarySearch
import EfiApps.PciIds.Table

/-!
# Looking up names

`PciIdsSearch` is a binary search among the children of an item.  On trees whose
siblings ascend it finds what a walk over the text finds, level by level.  The key
for a subsystem is computed as an `int`: as a `UINTN` it has all upper bits set when
the vendor of the subsystem is 0x8000 or above, and the stored key has not.
-/

namespace EfiApps
namespace PciIds

open PciMisc

/-! ## The functions -/

/-- The loop of `PciIdsSearch`, on the array `Children`. -/
def pciIdsSearchLoop (children : Nat → PciIdItem) (value : UInt64) (minIndex maxIndex : Nat) :
    Option PciIdItem :=
  if minIndex < maxIndex then
    if (children ((maxIndex + minIndex) >>> 1)).value = value then
      some (children ((maxIndex + minIndex) >>> 1))
    else if (children ((maxIndex + minIndex) >>> 1)).value < value then
      pciIdsSearchLoop children value ((maxIndex + minIndex) >>> 1 + 1) maxIndex
    else pciIdsSearchLoop children value minIndex ((maxIndex + minIndex) >>> 1)
  else none
termination_by maxIndex - minIndex
decreasing_by all_goals (rw [Nat.shiftRight_eq_div_pow]; omega)

/-- `PciIdsSearch`. -/
def pciIdsSearch (items : ItemMemory) (pciIds : Option PciIdItem) (value : UInt64) :
    Option PciIdItem :=
  match pciIds with
  | none => none
  | some item =>
      match item.children with
      | none => none
      | some first =>
          pciIdsSearchLoop (fun i => items first.block (first.offset + i)) value 0 item.numChildren

/-- What `GetPciIdsNames` stores to `*name1`, `*name2` and `*name3`. -/
structure Names where
  name1 : Option Ptr := none
  name2 : Option Ptr := none
  name3 : Option Ptr := none
  deriving DecidableEq, Repr

/-- `GetPciIdsNames`. -/
def getPciIdsNames (items : ItemMemory) (pciIds : Option PciIdItem)
    (value1 value2 value3 : UInt64) : Names :=
  match pciIdsSearch items pciIds value1 with
  | none => {}
  | some item1 =>
      match pciIdsSearch items (some item1) value2 with
      | none => { name1 := item1.name }
      | some item2 =>
          match pciIdsSearch items (some item2) value3 with
          | none => { name1 := item1.name, name2 := item2.name }
          | some item3 => { name1 := item1.name, name2 := item2.name, name3 := item3.name }

/-- The third value of `OutputPciInfo` for vendor, device and subsystem: the operands
are promoted to `int`, and the result is converted to `UINTN`. -/
def subsystemValue (d : PciIoDevice) : UInt64 :=
  let value : Int32 :=
    if d.pciType1 then 0
    else (d.pci.subsystemVendorID.toUInt32.toInt32 <<< 16) ||| d.pci.subsystemID.toUInt32.toInt32
  value.toInt64.toUInt64

/-- `Vendor`, `Device` and `SubSystem` of `OutputPciInfo`. -/
def deviceNames (s : Globals) (d : PciIoDevice) : Names :=
  getPciIdsNames s.items (some s.vendors) d.pci.vendorId.toUInt64 d.pci.deviceId.toUInt64
    (subsystemValue d)

/-- `Class`, `SubClass` and `ProgIf` of `OutputPciInfo`. -/
def classNames (s : Globals) (d : PciIoDevice) : Names :=
  getPciIdsNames s.items (some s.classes) d.pci.classCode2.toUInt64 d.pci.classCode1.toUInt64
    d.pci.classCode0.toUInt64

/-! ## Looking up in a text -/

section lookup

variable {β : Type}

/-- The nodes ascend by ID. -/
def Ascending (nodes : List (IdNode β)) : Prop :=
  nodes.Pairwise fun node node' => node.value < node'.value

instance (nodes : List (IdNode β)) : Decidable (Ascending nodes) :=
  inferInstanceAs (Decidable (nodes.Pairwise _))

/-- The siblings ascend, on every level. -/
def AscendingTrees (trees : List IdTree) : Prop :=
  Ascending trees ∧ ∀ tree ∈ trees, Ascending tree.children ∧
    ∀ node ∈ tree.children, Ascending node.children

instance (trees : List IdTree) : Decidable (AscendingTrees trees) :=
  inferInstanceAs (Decidable (_ ∧ _))

/-- The node with an ID. -/
def lookup (nodes : List (IdNode β)) (value : UInt64) : Option (IdNode β) :=
  nodes.find? fun node => node.value = value

/-- The node on the second level. -/
def lookup2 (trees : List IdTree) (value1 value2 : UInt64) : Option IdBranch :=
  (lookup trees value1).bind fun tree => lookup tree.children value2

/-- The node on the third level. -/
def lookup3 (trees : List IdTree) (value1 value2 value3 : UInt64) : Option IdLeaf :=
  (lookup2 trees value1 value2).bind fun node => lookup node.children value3

/-- The pointer is to the name of the node, and `NULL` if there is no node. -/
def NameIs (text : TextMemory) (name : Option Ptr) : Option (IdNode β) → Prop
  | none => name = none
  | some node => IsString text name node.name

/-- The names are those of the nodes on the three levels. -/
structure NamesAre (text : TextMemory) (names : Names) (trees : List IdTree)
    (value1 value2 value3 : UInt64) : Prop where
  name1 : NameIs text names.name1 (lookup trees value1)
  name2 : NameIs text names.name2 (lookup2 trees value1 value2)
  name3 : NameIs text names.name3 (lookup3 trees value1 value2 value3)

end lookup

/-! ## The search -/

section search

variable {β : Type} {describes : PciIdItem → β → Prop} {text : TextMemory} {items : ItemMemory}

/-- The loop is a binary search for the value. -/
theorem pciIdsSearchLoop_eq (children : Nat → PciIdItem) (value : UInt64) (minIndex maxIndex : Nat) :
    pciIdsSearchLoop children value minIndex maxIndex =
      (BinarySearch.search (fun i => (children i).value.toNat) value.toNat minIndex
        maxIndex).map children := by
  fun_induction pciIdsSearchLoop children value minIndex maxIndex with
  | case1 minIndex maxIndex hlt heq =>
      rw [BinarySearch.search, if_pos hlt]
      rw [Nat.shiftRight_eq_div_pow, Nat.pow_one] at heq ⊢
      rw [if_pos (congrArg UInt64.toNat heq), Option.map_some]
  | case2 minIndex maxIndex hlt hne hless ih =>
      rw [ih, BinarySearch.search.eq_def _ _ minIndex, if_pos hlt]
      rw [Nat.shiftRight_eq_div_pow, Nat.pow_one] at hne hless ⊢
      rw [if_neg fun heq => hne (UInt64.toNat_inj.mp heq), if_pos (UInt64.lt_iff_toNat_lt.mp hless)]
  | case3 minIndex maxIndex hlt hne hmore ih =>
      rw [ih, BinarySearch.search.eq_def _ _ minIndex maxIndex, if_pos hlt]
      rw [Nat.shiftRight_eq_div_pow, Nat.pow_one] at hne hmore ⊢
      rw [if_neg fun heq => hne (UInt64.toNat_inj.mp heq),
        if_neg fun hless => hmore (UInt64.lt_iff_toNat_lt.mpr hless)]
  | case4 minIndex maxIndex hnot =>
      rw [BinarySearch.search, if_neg hnot, Option.map_none]

/-- Nodes that ascend are an ascending array. -/
theorem Ascending.ascendsBetween {nodes : List (IdNode β)} (h : Ascending nodes)
    {a : Nat → Nat} (ha : ∀ i (hi : i < nodes.length), a i = nodes[i].value.toNat) :
    BinarySearch.AscendsBetween a 0 nodes.length := by
  intro i j _ hij hj
  rw [ha i (hij.trans hj), ha j hj]
  exact UInt64.lt_iff_toNat_lt.mp (List.pairwise_iff_getElem.mp h i j (hij.trans hj) hj hij)

/-- In an array that holds ascending nodes, the search finds the node with the value. -/
theorem pciIdsSearch_spec {item : PciIdItem} {nodes : List (IdNode β)}
    (h : DescribesChildren (Describes describes text items) items item nodes)
    (hasc : Ascending nodes) (value : UInt64) :
    Option.Rel (Describes describes text items) (pciIdsSearch items (some item) value)
      (lookup nodes value) := by
  obtain ⟨hnum, ⟨rfl, hnone⟩ | ⟨first, hfirst, hitems⟩⟩ := h
  · rw [pciIdsSearch, hnone]
    exact .none
  · have hvalue : ∀ i (hi : i < nodes.length),
        (items first.block (first.offset + i)).value.toNat = nodes[i].value.toNat :=
      fun i hi => congrArg UInt64.toNat (hitems i hi).1
    have hascends := hasc.ascendsBetween hvalue
    rw [pciIdsSearch, hfirst]
    dsimp only
    rw [pciIdsSearchLoop_eq, hnum]
    cases hlookup : lookup nodes value with
    | none =>
        have habsent := List.find?_eq_none.mp hlookup
        rw [(BinarySearch.search_eq_none_iff hascends).mpr fun i _ hi heq => ?_]
        · exact .none
        · rw [hvalue i hi] at heq
          exact habsent _ (List.getElem_mem hi) (by simpa using UInt64.toNat_inj.mp heq)
    | some node =>
        obtain ⟨i, hi, rfl⟩ := List.mem_iff_getElem.mp (List.mem_of_find?_eq_some hlookup)
        have hfound : nodes[i].value = value := by simpa using List.find?_some hlookup
        rw [BinarySearch.search_complete hascends (Nat.zero_le i) hi
          ((hvalue i hi).trans (congrArg UInt64.toNat hfound))]
        exact .some (hitems i hi)

/-- The search among the children of an item that was found, if any was. -/
theorem pciIdsSearch_bind {item? : Option PciIdItem} {node? : Option (IdNode (IdNode β))}
    (h : Option.Rel (Describes (Describes describes text items) text items) item? node?)
    (hasc : ∀ node ∈ node?, Ascending node.children) (value : UInt64) :
    Option.Rel (Describes describes text items) (pciIdsSearch items item? value)
      (node?.bind fun node => lookup node.children value) := by
  cases h with
  | none => exact .none
  | some h => exact pciIdsSearch_spec h.2.2 (hasc _ rfl) value

theorem NameIs.of_rel {item? : Option PciIdItem} {node? : Option (IdNode β)}
    (h : Option.Rel (Describes describes text items) item? node?) :
    NameIs text (item?.bind PciIdItem.name) node? := by
  cases h with
  | none => rfl
  | some h => exact h.2.1

theorem mem_of_lookup {nodes : List (IdNode β)} {value : UInt64} {node : IdNode β}
    (h : lookup nodes value = some node) : node ∈ nodes :=
  List.mem_of_find?_eq_some h

end search

/-- Every search of `GetPciIdsNames` is among the children of what the one before has
found. -/
theorem getPciIdsNames_eq (items : ItemMemory) (pciIds : Option PciIdItem)
    (value1 value2 value3 : UInt64) :
    getPciIdsNames items pciIds value1 value2 value3 =
      { name1 := (pciIdsSearch items pciIds value1).bind PciIdItem.name
        name2 := (pciIdsSearch items (pciIdsSearch items pciIds value1) value2).bind PciIdItem.name
        name3 := (pciIdsSearch items (pciIdsSearch items (pciIdsSearch items pciIds value1) value2)
          value3).bind PciIdItem.name } := by
  unfold getPciIdsNames
  cases pciIdsSearch items pciIds value1 with
  | none => rfl
  | some item1 =>
      dsimp only
      cases pciIdsSearch items (some item1) value2 with
      | none => rfl
      | some item2 =>
          dsimp only
          cases pciIdsSearch items (some item2) value3 <;> rfl

/-- On trees whose siblings ascend, the names are those of the nodes. -/
theorem getPciIdsNames_spec {text : TextMemory} {items : ItemMemory} {root : PciIdItem}
    {trees : List IdTree} (h : DescribesForest text items root trees)
    (hasc : AscendingTrees trees) (value1 value2 value3 : UInt64) :
    NamesAre text (getPciIdsNames items (some root) value1 value2 value3) trees value1 value2
      value3 := by
  obtain ⟨hasc, hbelow⟩ := hasc
  have hasc2 : ∀ tree ∈ lookup trees value1, Ascending tree.children :=
    fun tree htree => (hbelow tree (mem_of_lookup htree)).1
  have hasc3 : ∀ node ∈ lookup2 trees value1 value2, Ascending node.children := by
    intro node hnode
    obtain ⟨tree, htree, hnode⟩ := Option.bind_eq_some_iff.mp hnode
    exact (hbelow tree (mem_of_lookup htree)).2 node (mem_of_lookup hnode)
  have hrel1 := pciIdsSearch_spec h hasc value1
  have hrel2 := pciIdsSearch_bind hrel1 hasc2 value2
  have hrel3 := pciIdsSearch_bind hrel2 hasc3 value3
  rw [getPciIdsNames_eq]
  exact ⟨.of_rel hrel1, .of_rel hrel2, .of_rel hrel3⟩

/-! ## The key of a subsystem -/

/-- The ID of a line with these two IDs. -/
def pairValue (subvendor subdevice : UInt16) : UInt64 :=
  .ofNat (subvendor.toNat * 65536 + subdevice.toNat)

theorem toNat_pairValue (subvendor subdevice : UInt16) :
    (pairValue subvendor subdevice).toNat = subvendor.toNat * 65536 + subdevice.toNat := by
  have hvendor := subvendor.toNat_lt
  have hdevice := subdevice.toNat_lt
  exact UInt64.toNat_ofNat_of_lt' (show _ < 2 ^ 64 by omega)

theorem toNat_shiftLeft_or (v s : UInt16) :
    (v.toUInt32 <<< 16 ||| s.toUInt32).toNat = v.toNat * 65536 + s.toNat := by
  have hv := v.toNat_lt
  have hs := s.toNat_lt
  have hshift := or_shiftLeft v.toNat (show 16 < 32 by decide) hs (by omega)
  rw [UInt32.ofNat_uInt16ToNat, UInt32.ofNat_uInt16ToNat] at hshift
  rw [show (16 : UInt32) = UInt32.ofNat 16 from rfl, hshift]
  exact UInt32.toNat_ofNat_of_lt' (show v.toNat * 65536 + s.toNat < 2 ^ 32 by omega)

section key

variable {d : PciIoDevice}

/-- The sign of the `int` goes to the upper half of the `UINTN`. -/
theorem toNat_subsystemValue (hd : d.pciType1 = false) :
    (subsystemValue d).toNat = d.pci.subsystemVendorID.toNat * 65536 + d.pci.subsystemID.toNat +
      if 0x8000 ≤ d.pci.subsystemVendorID.toNat then 2 ^ 64 - 2 ^ 32 else 0 := by
  have hv := d.pci.subsystemVendorID.toNat_lt
  have hs := d.pci.subsystemID.toNat_lt
  have hextend : subsystemValue d = ⟨BitVec.signExtend 64
      (d.pci.subsystemVendorID.toUInt32 <<< 16 ||| d.pci.subsystemID.toUInt32).toBitVec⟩ := by
    rw [subsystemValue, hd]
    rfl
  rw [hextend, UInt64.toNat_ofBitVec, BitVec.toNat_signExtend, BitVec.toNat_setWidth,
    BitVec.msb_eq_decide, UInt32.toNat_toBitVec, toNat_shiftLeft_or, Nat.mod_eq_of_lt (by omega)]
  congr 1
  by_cases hle : 0x8000 ≤ d.pci.subsystemVendorID.toNat
  · rw [if_pos hle, if_pos]
    rw [decide_eq_true_iff]
    omega
  · rw [if_neg hle, if_neg]
    rw [decide_eq_true_iff]
    omega

/-- The key is the ID of the line exactly for vendors below 0x8000. -/
theorem subsystemValue_eq_iff (hd : d.pciType1 = false) :
    subsystemValue d = pairValue d.pci.subsystemVendorID d.pci.subsystemID ↔
      d.pci.subsystemVendorID < 0x8000 := by
  rw [← UInt64.toNat_inj, toNat_subsystemValue hd, toNat_pairValue, UInt16.lt_iff_toNat_lt,
    show UInt16.toNat 0x8000 = 0x8000 from rfl]
  split <;> omega

/-- For a line with the IDs of the function, `ReadPciIds` stores the key that
`OutputPciInfo` builds. -/
def KeysAgree (d : PciIoDevice) : Prop :=
  ∀ mem l, TextAt mem l
      (idText .subsystem (pairValue d.pci.subsystemVendorID d.pci.subsystemID).toNat) →
    storedValue (initone mem l .subsystem) l .w32 = subsystemValue d

theorem keysAgree_iff (hd : d.pciType1 = false) :
    KeysAgree d ↔ d.pci.subsystemVendorID < 0x8000 := by
  rw [← subsystemValue_eq_iff hd]
  have hv := d.pci.subsystemVendorID.toNat_lt
  have hs := d.pci.subsystemID.toNat_lt
  have hvalue := toNat_pairValue d.pci.subsystemVendorID d.pci.subsystemID
  have hstored : ∀ mem l, TextAt mem l
      (idText .subsystem (pairValue d.pci.subsystemVendorID d.pci.subsystemID).toNat) →
      storedValue (initone mem l .subsystem) l .w32 =
        pairValue d.pci.subsystemVendorID d.pci.subsystemID := by
    intro mem l hid
    rw [← UInt64.toNat_inj]
    exact storedValue_subsystem hid (by omega)
  constructor
  · intro hagree
    have hline := textAt_getD
      (idText .subsystem (pairValue d.pci.subsystemVendorID d.pci.subsystemID).toNat)
    exact (hagree _ _ hline).symm.trans (hstored _ _ hline)
  · intro heq mem l hid
    rw [heq]
    exact hstored mem l hid

/-- The names of the vendor, the device and the subsystem of a function are those in
the text. -/
def DeviceNamesAre (s : Globals) (text : IdsText) (d : PciIoDevice) : Prop :=
  NamesAre s.text (deviceNames s d) text.vendors d.pci.vendorId.toUInt64 d.pci.deviceId.toUInt64
    (pairValue d.pci.subsystemVendorID d.pci.subsystemID)

/-- The IDs of the subsystems in a text have 32 bits. -/
theorem lookup3_value_lt {text : IdsText} {value1 value2 value3 : UInt64} {node : IdLeaf}
    (h : lookup3 text.vendors value1 value2 value3 = some node) : value3.toNat < 4294967296 := by
  obtain ⟨branch, hbranch, hleaf⟩ := Option.bind_eq_some_iff.mp h
  obtain ⟨tree, htree, hbranch⟩ := Option.bind_eq_some_iff.mp hbranch
  have hvalue : node.value = value3 := by simpa using List.find?_some hleaf
  have hline : leafLine .subsystem node ∈ treeLines .vendor .device .subsystem tree :=
    List.mem_cons_of_mem _ (List.mem_flatMap.mpr ⟨branch, mem_of_lookup hbranch,
      List.mem_cons_of_mem _ (List.mem_map_of_mem (mem_of_lookup hleaf))⟩)
  rw [← hvalue]
  exact (text.valid_of_mem (text.mem_of_vendors (mem_of_lookup htree) hline)).value

/-- The names of a function are right if its key is that of a line, or if there is no
line that it could find. -/
theorem deviceNamesAre_iff {s : Globals} {text : IdsText}
    (h : DescribesForest s.text s.items s.vendors text.vendors)
    (hasc : AscendingTrees text.vendors) (hd : d.pciType1 = false) :
    DeviceNamesAre s text d ↔ d.pci.subsystemVendorID < 0x8000 ∨
      lookup3 text.vendors d.pci.vendorId.toUInt64 d.pci.deviceId.toUInt64
        (pairValue d.pci.subsystemVendorID d.pci.subsystemID) = none := by
  have hspec := getPciIdsNames_spec h hasc d.pci.vendorId.toUInt64 d.pci.deviceId.toUInt64
    (subsystemValue d)
  by_cases hlt : d.pci.subsystemVendorID < 0x8000
  · rw [(subsystemValue_eq_iff hd).mpr hlt] at hspec
    rw [DeviceNamesAre, deviceNames, (subsystemValue_eq_iff hd).mpr hlt]
    exact ⟨fun _ => .inl hlt, fun _ => hspec⟩
  · -- The key has 64 bits, so no line has it.
    have hmissing : lookup3 text.vendors d.pci.vendorId.toUInt64 d.pci.deviceId.toUInt64
        (subsystemValue d) = none := by
      by_contra hfound
      obtain ⟨node, hfound⟩ := Option.ne_none_iff_exists'.mp hfound
      have hvalue := lookup3_value_lt hfound
      rw [toNat_subsystemValue hd, if_pos] at hvalue
      · omega
      · rw [UInt16.lt_iff_toNat_lt, show UInt16.toNat 0x8000 = 0x8000 from rfl] at hlt
        omega
    have hname3 := hspec.name3
    rw [hmissing] at hname3
    constructor
    · intro hnames
      refine .inr ?_
      have hname3' : NameIs s.text (deviceNames s d).name3 _ := hnames.name3
      rw [deviceNames, show (getPciIdsNames s.items (some s.vendors) d.pci.vendorId.toUInt64
        d.pci.deviceId.toUInt64 (subsystemValue d)).name3 = none from hname3] at hname3'
      cases hlookup : lookup3 text.vendors d.pci.vendorId.toUInt64 d.pci.deviceId.toUInt64
          (pairValue d.pci.subsystemVendorID d.pci.subsystemID) with
      | none => rfl
      | some node =>
          rw [hlookup] at hname3'
          obtain ⟨ptr, hptr, -⟩ := hname3'
          cases hptr
    · rintro (hlt' | hnone)
      · exact absurd hlt' hlt
      · refine ⟨hspec.name1, hspec.name2, ?_⟩
        rw [hnone]
        exact hname3

/-- After a `ReadPciIds` of a text whose siblings ascend, the names of a function that
is no bridge are right and its keys agree exactly if the vendor of its subsystem is
below 0x8000.  For other functions the names are right only if the text has no line
for the subsystem. -/
theorem deviceNames_iff {s : Globals} (hs : BeforeSuccess s) (text : IdsText)
    (hasc : AscendingTrees text.vendors) {contents : Nat → UInt16}
    (htext : TextAt contents 0 text.units) (hd : d.pciType1 = false) :
    ∃ fuel₁, ∀ fuel ≥ fuel₁, ∃ s',
      readPciIds fuel (.success contents text.units.length) true s = .ok (.success, s') ∧
        (DeviceNamesAre s' text d ∧ KeysAgree d ↔ d.pci.subsystemVendorID < 0x8000) ∧
        (DeviceNamesAre s' text d ↔ d.pci.subsystemVendorID < 0x8000 ∨
          lookup3 text.vendors d.pci.vendorId.toUInt64 d.pci.deviceId.toUInt64
            (pairValue d.pci.subsystemVendorID d.pci.subsystemID) = none) := by
  obtain ⟨fuel₁, hread⟩ := readPciIds_of_emptyRoots hs.emptyRoots text htext
  refine ⟨fuel₁, fun fuel hfuel => ?_⟩
  obtain ⟨s', hrun, hvendors, -⟩ := hread fuel hfuel
  have hnames := deviceNamesAre_iff hvendors hasc hd
  refine ⟨s', hrun, ?_, hnames⟩
  constructor
  · rintro ⟨-, hagree⟩
    exact (keysAgree_iff hd).mp hagree
  · intro hlt
    exact ⟨hnames.mpr (.inl hlt), (keysAgree_iff hd).mpr hlt⟩

end key

/-- A function with the IDs of `smallVendor`. -/
def smallFunction (subvendor : UInt16) : PciIoDevice :=
  { pci :=
      { vendorId := 0x106b
        deviceId := 0x15
        subsystemVendorID := subvendor
        subsystemID := 0x1234 } }

/-- The vendor of the subsystem 106b:1234 is below 0x8000, and its line is found. -/
theorem deviceNames_iff_small : ∃ fuel₁, ∀ fuel ≥ fuel₁, ∃ s',
    readPciIds fuel (.success (smallText.units.getD · 0) smallText.units.length) true .init =
        .ok (.success, s') ∧
      lookup3 smallText.vendors 0x106b 0x15 (pairValue 0x106b 0x1234) =
        some ⟨0x106b1234, [0x47], []⟩ ∧
      DeviceNamesAre s' smallText (smallFunction 0x106b) ∧ KeysAgree (smallFunction 0x106b) := by
  obtain ⟨fuel₁, hread⟩ := deviceNames_iff .init smallText (by decide)
    (textAt_getD smallText.units) (show (smallFunction 0x106b).pciType1 = false from rfl)
  refine ⟨fuel₁, fun fuel hfuel => ?_⟩
  obtain ⟨s', hrun, hboth, -⟩ := hread fuel hfuel
  exact ⟨s', hrun, by decide, hboth.mpr (by decide)⟩

/-- The subsystem 8086:1234 has a line, but `OutputPciInfo` does not find it. -/
theorem deviceNames_missing : ∃ fuel s',
    readPciIds fuel (.success (smallText.units.getD · 0) smallText.units.length) true .init =
        .ok (.success, s') ∧
      AscendingTrees smallText.vendors ∧ (smallFunction 0x8086).pciType1 = false ∧
      lookup3 smallText.vendors 0x106b 0x15 (pairValue 0x8086 0x1234) =
        some ⟨0x80861234, [0x43, 0x22], []⟩ ∧
      (deviceNames s' (smallFunction 0x8086)).name3 = none ∧
      ¬ (DeviceNamesAre s' smallText (smallFunction 0x8086) ∧ KeysAgree (smallFunction 0x8086)) := by
  obtain ⟨fuel, hread⟩ := readPciIds_of_emptyRoots emptyRoots_init smallText
    (textAt_getD smallText.units)
  obtain ⟨s', hrun, hvendors, -⟩ := hread fuel le_rfl
  have hasc : AscendingTrees smallText.vendors := by decide
  refine ⟨fuel, s', hrun, hasc, rfl, by decide, ?_, ?_⟩
  · exact (getPciIdsNames_spec hvendors hasc 0x106b 0x15
      (subsystemValue (smallFunction 0x8086))).name3
  · rintro ⟨-, hagree⟩
    exact absurd ((keysAgree_iff rfl).mp hagree) (by decide)

end PciIds
end EfiApps
