import EfiApps.PciIds.InternalTable
import EfiApps.PciIds.Lifetime

/-!
# Both tables

The internal table and the table of `ReadPciIds` hold the trees of the same text, so
they are the same, item by item.
-/

namespace EfiApps
namespace PciIds

open PciMisc

/-! ## Items that are the same -/

/-- The items have the same value, the same name and the same children, all the way
down; each is in a memory of its own. -/
inductive SameItem (text : TextMemory) (items : ItemMemory) (text' : TextMemory)
    (items' : ItemMemory) : PciIdItem → PciIdItem → Prop
  | mk {item item' : PciIdItem} (value : item.value = item'.value)
      (name : ∃ units, IsString text item.name units ∧ IsString text' item'.name units)
      (num : item.numChildren = item'.numChildren)
      (array : 0 < item.numChildren → item.children.isSome ∧ item'.children.isSome)
      (children : ∀ i < item.numChildren, ∀ first ∈ item.children, ∀ first' ∈ item'.children,
        SameItem text items text' items' (items first.block (first.offset + i))
          (items' first'.block (first'.offset + i))) :
      SameItem text items text' items' item item'

section same

variable {β : Type} {text text' : TextMemory} {items items' : ItemMemory}
  {describes describes' : PciIdItem → β → Prop}

/-- Items that hold the same node are the same, if this is so for its children. -/
theorem Describes.same {item item' : PciIdItem} {node : IdNode β}
    (h : Describes describes text items item node)
    (h' : Describes describes' text' items' item' node)
    (hbelow : ∀ child child' node', describes child node' → describes' child' node' →
      SameItem text items text' items' child child') :
    SameItem text items text' items' item item' := by
  obtain ⟨hvalue, hname, hnum, hchildren⟩ := h
  obtain ⟨hvalue', hname', hnum', hchildren'⟩ := h'
  refine .mk (hvalue.trans hvalue'.symm) ⟨_, hname, hname'⟩ (hnum.trans hnum'.symm) ?_ ?_
  · intro hpos
    rcases hchildren with ⟨hnil, -⟩ | ⟨first, hfirst, -⟩
    · rw [hnum, hnil] at hpos
      cases hpos
    · rcases hchildren' with ⟨hnil, -⟩ | ⟨first', hfirst', -⟩
      · rw [hnum, hnil] at hpos
        cases hpos
      · rw [hfirst, hfirst']
        exact ⟨rfl, rfl⟩
  · intro i hi first hfirst first' hfirst'
    rcases hchildren with ⟨-, hnone⟩ | ⟨p, hp, hitems⟩
    · rw [hnone] at hfirst
      cases hfirst
    · rcases hchildren' with ⟨-, hnone⟩ | ⟨p', hp', hitems'⟩
      · rw [hnone] at hfirst'
        cases hfirst'
      · obtain rfl : p = first := Option.some.inj (hp.symm.trans hfirst)
        obtain rfl : p' = first' := Option.some.inj (hp'.symm.trans hfirst')
        rw [hnum] at hi
        exact hbelow _ _ _ (hitems i hi) (hitems' i hi)

/-- A root with its trees, as a node. -/
def rootNode (value : UInt64) (name : List UInt16) (trees : List IdTree) : IdNode IdTree :=
  ⟨value, name, trees⟩

/-- The item is the root of the trees, with a value and a name of its own. -/
def DescribesRoot (text : TextMemory) (items : ItemMemory) : PciIdItem → IdNode IdTree → Prop :=
  Describes (DescribesTree text items) text items

/-- Roots of the same trees are the same. -/
theorem DescribesRoot.same {item item' : PciIdItem} {root : IdNode IdTree}
    (h : DescribesRoot text items item root) (h' : DescribesRoot text' items' item' root) :
    SameItem text items text' items' item item' := by
  refine Describes.same h h' fun _ _ _ htree htree' => ?_
  refine Describes.same htree htree' fun _ _ _ hbranch hbranch' => ?_
  refine Describes.same hbranch hbranch' fun _ _ _ hleaf hleaf' => ?_
  exact Describes.same hleaf hleaf' fun _ _ node => node.elim

end same

/-! ## The trees of a text -/

section trees

variable {text : IdsText} {before vendors after : List IdTree}

/-- Trees that ascend are keyed, if their lines are valid. -/
theorem AscendingTrees.keyed {σ : Side} {trees : List IdTree} (h : AscendingTrees trees)
    (hvalid : ∀ i ∈ σ.lines trees, i.Valid ∧ 0x0d ∉ i.name) : KeyedTrees σ trees := by
  have hline : ∀ tree ∈ trees, ∀ i ∈ treeLines σ.top σ.mid σ.low tree,
      i.value.toNat < i.kind.valueBound ∧ 0x0d ∉ i.name := by
    intro tree htree i hi
    have hi := hvalid i (List.mem_flatMap.mpr ⟨tree, htree, hi⟩)
    exact ⟨hi.1.value, hi.2⟩
  have hbranch : ∀ tree ∈ trees, ∀ branch ∈ tree.children, ∀ i ∈ branchLines σ.mid σ.low branch,
      i.value.toNat < i.kind.valueBound ∧ 0x0d ∉ i.name := by
    intro tree htree branch hbranch i hi
    exact hline tree htree i (List.mem_cons_of_mem _ (List.mem_flatMap.mpr ⟨branch, hbranch, hi⟩))
  have hleaf : ∀ tree ∈ trees, ∀ branch ∈ tree.children, ∀ leaf ∈ branch.children,
      leaf.value.toNat < σ.low.valueBound ∧ 0x0d ∉ leaf.name := by
    intro tree htree branch hmem leaf hleaf
    exact hbranch tree htree branch hmem (leafLine σ.low leaf)
      (List.mem_cons_of_mem _ (List.mem_map_of_mem hleaf))
  constructor
  · have htop := fun tree htree => hline tree htree _ List.mem_cons_self
    exact ⟨h.1, fun tree htree => (htop tree htree).1, fun tree htree => (htop tree htree).2⟩
  · intro tree htree
    have hmid := fun branch hmem => hbranch tree htree branch hmem _ List.mem_cons_self
    exact ⟨(h.2 tree htree).1, fun branch hmem => (hmid branch hmem).1,
      fun branch hmem => (hmid branch hmem).2⟩
  · intro tree htree branch hmem
    exact ⟨(h.2 tree htree).2 branch hmem, fun leaf hmem' => (hleaf tree htree branch hmem leaf hmem').1,
      fun leaf hmem' => (hleaf tree htree branch hmem leaf hmem').2⟩

/-- No name has a carriage return in it, as that of a line that ends with one would. -/
def NoReturns (text : IdsText) : Prop :=
  ∀ i ∈ text.entries.flatMap Entry.lines, 0x0d ∉ i.name

instance : Decidable (NoReturns text) :=
  inferInstanceAs (Decidable (∀ i ∈ text.entries.flatMap Entry.lines, 0x0d ∉ i.name))

theorem keyedTrees_vendors (h : AscendingTrees text.vendors) (hreturns : NoReturns text) :
    KeyedTrees .vendors text.vendors := by
  refine h.keyed fun i hi => ?_
  obtain ⟨tree, htree, hi⟩ := List.mem_flatMap.mp hi
  have hmem := text.mem_of_vendors htree hi
  exact ⟨text.valid_of_mem hmem, hreturns i hmem⟩

theorem keyedTrees_classes (h : AscendingTrees text.classes) (hreturns : NoReturns text) :
    KeyedTrees .classes text.classes := by
  refine h.keyed fun i hi => ?_
  obtain ⟨tree, htree, hi⟩ := List.mem_flatMap.mp hi
  have hmem := text.mem_of_classes htree hi
  exact ⟨text.valid_of_mem hmem, hreturns i hmem⟩

/-- There are vendors and classes, and no class stands between two vendors. -/
def VendorsTogether (entries : List Entry) : Prop :=
  ∃ before vendors after : List IdTree, vendors ≠ [] ∧ before ++ after ≠ [] ∧
    entries = before.map .baseClass ++ vendors.map .vendor ++ after.map .baseClass

theorem vendors_of_entries
    (h : text.entries = before.map .baseClass ++ vendors.map .vendor ++ after.map .baseClass) :
    text.vendors = vendors := by
  rw [IdsText.vendors, h, List.filterMap_append, List.filterMap_append, List.filterMap_map,
    List.filterMap_map, List.filterMap_map]
  have hnone : ∀ trees : List IdTree, trees.filterMap (Entry.vendor? ∘ .baseClass) = [] :=
    fun trees => List.filterMap_eq_nil_iff.mpr fun _ _ => rfl
  rw [hnone, hnone, List.nil_append, List.append_nil]
  exact List.filterMap_some

theorem classes_of_entries
    (h : text.entries = before.map .baseClass ++ vendors.map .vendor ++ after.map .baseClass) :
    text.classes = before ++ after := by
  rw [IdsText.classes, h, List.filterMap_append, List.filterMap_append, List.filterMap_map,
    List.filterMap_map, List.filterMap_map]
  have hnone : vendors.filterMap (Entry.baseClass? ∘ .vendor) = [] :=
    List.filterMap_eq_nil_iff.mpr fun _ _ => rfl
  have hsome : ∀ trees : List IdTree, trees.filterMap (Entry.baseClass? ∘ .baseClass) = trees :=
    fun trees => List.filterMap_some
  rw [hnone, hsome, hsome, List.append_nil]

theorem lines_of_entries
    (h : text.entries = before.map .baseClass ++ vendors.map .vendor ++ after.map .baseClass) :
    text.entries.flatMap Entry.lines =
      Side.classes.lines before ++ Side.vendors.lines vendors ++ Side.classes.lines after := by
  rw [h, List.flatMap_append, List.flatMap_append, List.flatMap_map, List.flatMap_map,
    List.flatMap_map]
  rfl

end trees

/-! ## The internal table -/

section internal

variable {text : IdsText}

/-- A root of the internal table. -/
theorem CompiledItem.describesRoot {o : Objects} {record : PciIdItem} {init : Initializer}
    (h : CompiledItem o record init) {value : Nat} {name child : List UInt16}
    {trees : List IdTree} (hvalue : constantValue init.value = some value)
    (hname : init.name = escape name) (hline : 0x0d ∉ name)
    (hchild : init.child = some child) (hne : trees ≠ [])
    (harray : ∃ block, o.find child = some block ∧
      List.Forall₂ (DescribesTree o.text o.items) (o.records block) trees) :
    DescribesRoot o.text o.items record (rootNode (.ofNat value) name trees) := by
  refine ⟨?_, h.isString hname hline, ?_⟩
  · obtain ⟨value', hvalue', hrecord⟩ := h.value
    rw [hrecord, Option.some.inj (hvalue'.symm.trans hvalue)]
    rfl
  · refine h.describesChildren (hchild.trans (if_neg ?_).symm) fun _ => harray
    exact fun hempty => hne (List.isEmpty_iff.mp hempty)

/-- The source that the script makes of a text compiles to a table of its trees. -/
theorem compileTable_convertPciIds (hvendors : AscendingTrees text.vendors)
    (hclasses : AscendingTrees text.classes) (htogether : VendorsTogether text.entries)
    (hreturns : NoReturns text) :
    ∃ table, compileTable (convertPciIds (renderLines text.lines)) = some table ∧
      DescribesRoot table.objects.text table.objects.items table.vendors
        (rootNode 0 vendorsName text.vendors) ∧
      DescribesRoot table.objects.text table.objects.items table.classes
        (rootNode 1 classesName text.classes) := by
  have hkeyed := keyedTrees_vendors hvendors hreturns
  have hkeyed' := keyedTrees_classes hclasses hreturns
  obtain ⟨before, vendors, after, hne, hne', hentries⟩ := htogether
  rw [vendors_of_entries hentries] at hkeyed ⊢
  rw [classes_of_entries hentries] at hkeyed' ⊢
  obtain ⟨first, rest, hsplit, hout⟩ := script_out hkeyed.distinct hkeyed'.distinct
  obtain ⟨o, hrun, hbelow, hbelow', htop, htop', block, hfind, hroots⟩ :=
    source_compiles hkeyed hkeyed' hne hne' hsplit
  obtain ⟨root, rest₁, hroot, hroots, hrecords⟩ := List.forall₂_cons_right_iff.mp hroots
  obtain ⟨root', rest₂, hroot', hnil, rfl⟩ := List.forall₂_cons_right_iff.mp hroots
  obtain rfl := List.forall₂_nil_right_iff.mp hnil
  refine ⟨⟨o, root, root'⟩, ?_, ?_, ?_⟩
  · rw [convertPciIds_eq, lines_of_entries hentries, hout, compileTable, hrun]
    simp [show o.find internalName = some block from hfind, hrecords]
  · exact hroot.describesRoot rfl rfl (by decide) rfl hne (hkeyed.forall₂ hbelow hne htop)
  · exact hroot'.describesRoot rfl rfl (by decide) rfl hne' (hkeyed'.forall₂ hbelow' hne' htop')

end internal

/-! ## The roots of `ReadPciIds` -/

/-- The roots are as they were initialized, children apart, and so are their names. -/
structure RootsNamed (s : Globals) : Prop where
  vendors : s.vendors.value = 0 ∧ s.vendors.name = some ⟨0, 0⟩
  classes : s.classes.value = 1 ∧ s.classes.name = some ⟨1, 0⟩
  brk : 2 ≤ s.brk
  text : ∀ block < 2, s.text block = Globals.init.text block

section roots

variable {s s' : Globals}

theorem rootsNamed_init : RootsNamed .init := ⟨⟨rfl, rfl⟩, ⟨rfl, rfl⟩, le_rfl, fun _ _ => rfl⟩

/-- No call renames the roots. -/
theorem RootsNamed.effect (h : RootsNamed s) (heffect : Effect s s') : RootsNamed s' := by
  have hbrk := h.brk
  have htext : (∀ block < s.brk, s'.text block = s.text block) →
      ∀ block < 2, s'.text block = Globals.init.text block :=
    fun hsame block hblock => (hsame block (by omega)).trans (h.text block hblock)
  cases heffect with
  | kept hbrk' hsame hitems hvendors hclasses hblocks =>
      exact ⟨by rw [hvendors]; exact h.vendors, by rw [hclasses]; exact h.classes, by omega,
        htext hsame⟩
  | built hpass hbrk' hsame hitems hvendors hclasses hfile hbuffer hlive =>
      refine ⟨?_, ?_, by omega, htext hsame⟩
      · rw [hvendors, hpass.vendors.value, hpass.vendors.name]
        exact h.vendors
      · rw [hclasses, hpass.classes.value, hpass.classes.name]
        exact h.classes

theorem BeforeSuccess.rootsNamed (h : BeforeSuccess s) : RootsNamed s := by
  induction h with
  | init => exact rootsNamed_init
  | free _ ih => exact ih.effect (effect_freePciIds _)
  | read _ hrun _ ih => exact ih.effect (effect_readPciIds hrun)

/-- Named roots with the trees below them. -/
theorem RootsNamed.describesRoot (h : RootsNamed s) {trees trees' : List IdTree}
    (hvendors : DescribesForest s.text s.items s.vendors trees)
    (hclasses : DescribesForest s.text s.items s.classes trees') :
    DescribesRoot s.text s.items s.vendors (rootNode 0 vendorsName trees) ∧
      DescribesRoot s.text s.items s.classes (rootNode 1 classesName trees') := by
  have hname : TextAt (Globals.init.text 0) 0 (vendorsName ++ [0]) :=
    textAt_getD vendorsLiteral
  have hname' : TextAt (Globals.init.text 1) 0 (classesName ++ [0]) :=
    textAt_getD classesLiteral
  rw [← h.text 0 (by decide)] at hname
  rw [← h.text 1 (by decide)] at hname'
  exact ⟨⟨h.vendors.1, ⟨_, h.vendors.2, hname⟩, hvendors⟩,
    ⟨h.classes.1, ⟨_, h.classes.2, hname'⟩, hclasses⟩⟩

end roots

/-! ## The two tables -/

/-- The internal table that is generated from a text, and the table that the first
successful `ReadPciIds` builds from the same text, are the same if the siblings of the
text ascend, it has vendors and classes, no class stands between two vendors, and no name
has a carriage return in it. -/
theorem convertPciIds_same_readPciIds {s : Globals} (hs : BeforeSuccess s) (text : IdsText)
    (hvendors : AscendingTrees text.vendors) (hclasses : AscendingTrees text.classes)
    (htogether : VendorsTogether text.entries) (hreturns : NoReturns text)
    {contents : Nat → UInt16}
    (htext : TextAt contents 0 text.units) :
    ∃ table, compileTable (convertPciIds (renderLines text.lines)) = some table ∧
      ∃ fuel₁, ∀ fuel ≥ fuel₁, ∃ s',
        readPciIds fuel (.success contents text.units.length) true s = .ok (.success, s') ∧
          SameItem table.objects.text table.objects.items s'.text s'.items
            table.vendors s'.vendors ∧
          SameItem table.objects.text table.objects.items s'.text s'.items
            table.classes s'.classes := by
  obtain ⟨table, htable, hroot, hroot'⟩ := compileTable_convertPciIds hvendors hclasses htogether
    hreturns
  obtain ⟨fuel₁, hread⟩ := readPciIds_of_emptyRoots hs.emptyRoots text htext
  refine ⟨table, htable, fuel₁, fun fuel hfuel => ?_⟩
  obtain ⟨s', hrun, hforest, hforest'⟩ := hread fuel hfuel
  have hnamed : RootsNamed s' := hs.rootsNamed.effect (effect_readPciIds hrun)
  obtain ⟨hroots, hroots'⟩ := hnamed.describesRoot hforest hforest'
  exact ⟨s', hrun, hroot.same hroots, hroot'.same hroots'⟩

/-- A vendor and a class. -/
theorem convertPciIds_same_readPciIds_small :
    VendorsTogether smallText.entries ∧
      ∃ table, compileTable (convertPciIds (renderLines smallText.lines)) = some table ∧
        ∃ fuel s', readPciIds fuel (.success (smallText.units.getD · 0) smallText.units.length)
            true .init = .ok (.success, s') ∧
          SameItem table.objects.text table.objects.items s'.text s'.items
            table.vendors s'.vendors ∧
          SameItem table.objects.text table.objects.items s'.text s'.items
            table.classes s'.classes := by
  have htogether : VendorsTogether smallText.entries :=
    ⟨[], [smallVendor], [smallClass], by decide, by decide, rfl⟩
  obtain ⟨table, htable, fuel, hread⟩ := convertPciIds_same_readPciIds .init smallText (by decide)
    (by decide) htogether (by decide) (textAt_getD smallText.units)
  obtain ⟨s', hrun, hsame⟩ := hread fuel le_rfl
  exact ⟨htogether, table, htable, fuel, s', hrun, hsame⟩

/-- Two vendors with a class between them. -/
def separatedText : IdsText where
  bom := false
  lines := [.item ⟨.vendor, 0x1002, [0x41]⟩, .item ⟨.baseClass, 0x03, [0x42]⟩,
    .item ⟨.vendor, 0x106b, [0x43]⟩]
  entries := [.vendor ⟨0x1002, [0x41], []⟩, .baseClass ⟨0x03, [0x42], []⟩,
    .vendor ⟨0x106b, [0x43], []⟩]
  valid := by
    intro line hline
    simp only [List.mem_cons, List.not_mem_nil, or_false] at hline
    rcases hline with rfl | rfl | rfl
    · exact IdLine.Valid.line (by decide) (by decide)
    · exact IdLine.Valid.line (by decide) (by decide)
    · exact IdLine.Valid.line (by decide) (by decide)
  items := rfl

/-- A vendor and no class. -/
def vendorText : IdsText where
  bom := false
  lines := [.item ⟨.vendor, 0x1002, [0x41]⟩]
  entries := [.vendor ⟨0x1002, [0x41], []⟩]
  valid := by
    intro line hline
    obtain rfl := List.mem_singleton.mp hline
    exact IdLine.Valid.line (by decide) (by decide)
  items := rfl

/-- The name of the vendor ends with a carriage return. -/
def returnText : IdsText where
  bom := false
  lines := [.item ⟨.vendor, 0x1002, [0x41, 0x0d]⟩, .item ⟨.baseClass, 0x03, [0x42]⟩]
  entries := [.vendor ⟨0x1002, [0x41, 0x0d], []⟩, .baseClass ⟨0x03, [0x42], []⟩]
  valid := by
    intro line hline
    simp only [List.mem_cons, List.not_mem_nil, or_false] at hline
    rcases hline with rfl | rfl
    · exact IdLine.Valid.line (by decide) (by decide)
    · exact IdLine.Valid.line (by decide) (by decide)
  items := rfl

/-- The siblings ascend and the source does not compile, while `ReadPciIds` finds the
vendors. -/
def OnlyRead (text : IdsText) : Prop :=
  AscendingTrees text.vendors ∧ AscendingTrees text.classes ∧
    compileTable (convertPciIds (renderLines text.lines)) = none ∧
    ∃ fuel s', readPciIds fuel (.success (text.units.getD · 0) text.units.length) true .init =
      .ok (.success, s') ∧ s'.vendors.numChildren = text.vendors.length

theorem onlyRead_of_not_compiled {text : IdsText} (hvendors : AscendingTrees text.vendors)
    (hclasses : AscendingTrees text.classes)
    (hnone : compileTable (convertPciIds (renderLines text.lines)) = none) : OnlyRead text := by
  obtain ⟨fuel, hread⟩ := readPciIds_of_emptyRoots emptyRoots_init text (textAt_getD text.units)
  obtain ⟨s', hrun, hforest, -⟩ := hread fuel le_rfl
  exact ⟨hvendors, hclasses, hnone, fuel, s', hrun, hforest.1⟩

/-- `Vendors` is declared twice for a text with a class between two vendors, `Classes` is not
declared for a text without classes, and a string literal does not end on the line of a name
with a carriage return. -/
theorem separated_not_compiled :
    OnlyRead separatedText ∧ OnlyRead vendorText ∧ OnlyRead returnText := by
  refine ⟨?_, ?_, ?_⟩
  · refine onlyRead_of_not_compiled (by decide) (by decide) ?_
    rw [convertPciIds_eq]
    decide
  · refine onlyRead_of_not_compiled (by decide) (by decide) ?_
    rw [convertPciIds_eq]
    decide
  · refine onlyRead_of_not_compiled (by decide) (by decide) ?_
    rw [convertPciIds_eq]
    decide

end PciIds
end EfiApps
