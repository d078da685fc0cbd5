import EfiApps.PciMisc.BestParent
import EfiApps.PciMisc.TreePlaces

/-!
# The column behind the tree

`OutputPciInfo` fills the line up to `IndentMaxLength` with blanks.  Their number is an
unsigned difference, so the line must not be longer before.  `IndentMaxLength` comes from
the list of bridges and their `Parent` links, the line from the traversal; on a
well-formed tree every line is accounted for by the device itself or by its parent.
-/

namespace EfiApps
namespace PciMisc

/-! ## `OutputPciInfo` -/

/-- A digit of `%x`. -/
def hexStr (digit : UInt8) : UInt8 := if digit < 10 then 0x30 + digit else 0x37 + digit

/-- `%02x`. -/
def hexByte (byte : UInt8) : List UInt8 := [hexStr (byte / 16), hexStr (byte % 16)]

/-- `GetBusesString`. -/
def getBusesString (d : PciIoDevice) (useNew : Bool) : List UInt8 :=
  if d.pciType1 = false ∨ (d.pci.isPciBridge = false ∧ d.pci.isCardbusBridge = false) then []
  else
    let secondaryBus := if useNew then d.newSecondaryBus else d.pci.secondaryBus
    let subordinateBus := if useNew then d.newSubordinateBus else d.pci.subordinateBus
    -- `AsciiSPrint` leaves room for the terminator in the 9 bytes.
    if secondaryBus = subordinateBus then ([0x2d, 0x5b] ++ hexByte secondaryBus ++ [0x5d]).take 8
    else
      ([0x2d, 0x5b] ++ hexByte secondaryBus ++ [0x2d] ++ hexByte subordinateBus ++ [0x5d]).take 8

/-- `IndentMaxLength - StrLen (IndentString) - AsciiStrLen (buses)`. -/
def outputWidth (d : PciIoDevice) (indentString : List UInt16) (indentMaxLength : UInt64) :
    UInt64 :=
  indentMaxLength - .ofNat (stringLength indentString) - .ofNat (getBusesString d false).length

/-- The line of a device leaves room up to `IndentMaxLength`. -/
def LineFits (d : PciIoDevice) (indentString : List UInt16) (indentMaxLength : UInt64) : Prop :=
  stringLength indentString + (getBusesString d false).length ≤ indentMaxLength.toNat

/-- The difference does not wrap. -/
theorem LineFits.outputWidth {d : PciIoDevice} {indentString : List UInt16}
    {indentMaxLength : UInt64} (h : LineFits d indentString indentMaxLength) :
    (outputWidth d indentString indentMaxLength).toNat =
      indentMaxLength.toNat - stringLength indentString - (getBusesString d false).length := by
  have hlt := indentMaxLength.toNat_lt
  have hfits : stringLength indentString + (getBusesString d false).length ≤
    indentMaxLength.toNat := h
  have hstring : (UInt64.ofNat (stringLength indentString)).toNat = stringLength indentString := by
    rw [UInt64.toNat_ofNat', Nat.mod_eq_of_lt (by omega)]
  have hbuses : (UInt64.ofNat (getBusesString d false).length).toNat =
      (getBusesString d false).length := by
    rw [UInt64.toNat_ofNat', Nat.mod_eq_of_lt (by omega)]
  have hrest : (indentMaxLength - .ofNat (stringLength indentString)).toNat =
      indentMaxLength.toNat - stringLength indentString := by
    rw [UInt64.toNat_sub_of_le, hstring]
    rw [UInt64.le_iff_toNat_le, hstring]
    omega
  rw [PciMisc.outputWidth, UInt64.toNat_sub_of_le, hrest, hbuses]
  rw [UInt64.le_iff_toNat_le, hrest, hbuses]
  omega

/-- The bus numbers have the length that the search for `IndentMaxLength` adds. -/
theorem length_getBusesString (d : PciIoDevice) :
    (getBusesString d false).length ≤
      if d.pciType1 = false then 0
      else if d.pci.secondaryBus = d.pci.subordinateBus then 5 else 8 := by
  unfold getBusesString
  cases htype : d.pciType1 with
  | false => exact Nat.zero_le _
  | true =>
      split
      · exact Nat.zero_le _
      · by_cases hsame : d.pci.secondaryBus = d.pci.subordinateBus
        · simp [hsame, hexByte]
        · simp [hsame, hexByte]

/-! ## `IndentMaxLength` -/

section width

variable {heap : Heap} {fuel : Nat} {b : Addr} {path : List Addr}

/-- The depth of a bridge is the number of its ancestors. -/
theorem bridgeDepth_eq (hpath : Linked (fun a => (heap a).parent) (heap b).parent path)
    {depth : UInt64} (h : bridgeDepth fuel heap b = .ok depth) : depth = .ofNat path.length := by
  unfold bridgeDepth at h
  have hcount : depth = .ofNat ([] ++ path).length := by
    refine forEach_visited (f := fun a => (heap a).parent)
      (I := fun done (depth : UInt64) => depth = .ofNat done.length)
      (fun _ _ _ _ _ => rfl) ?_ rfl hpath h
    intro done a _ depth depth' hdepth hstep
    obtain rfl := Except.ok.inj hstep
    rw [hdepth, List.length_append, UInt64.ofNat_add]
    rfl
  exact hcount

/-- The width has room for the line of a bridge and for those of its children. -/
structure Covers (heap : Heap) (indentMaxLength : UInt64) (b : Addr) (path : List Addr) :
    Prop where
  bridge : bridgeIndent (heap b) (.ofNat path.length) ≤ indentMaxLength
  child : (heap b).firstChild.isSome = true →
    childIndent (.ofNat path.length) ≤ indentMaxLength

theorem Covers.mono {w w' : UInt64} (h : Covers heap w b path) (hle : w ≤ w') :
    Covers heap w' b path :=
  ⟨UInt64.le_trans h.bridge hle, fun hchild => UInt64.le_trans (h.child hchild) hle⟩

theorem le_ite_gt (a w : UInt64) : w ≤ (if a > w then a else w) ∧ a ≤ if a > w then a else w := by
  split
  · rename_i hgt
    exact ⟨UInt64.le_of_lt hgt, UInt64.le_refl a⟩
  · rename_i hle
    exact ⟨UInt64.le_refl w, UInt64.not_lt.mp hle⟩

/-- One bridge widens the column as far as it needs. -/
theorem covers_widenIndent (hpath : Linked (fun a => (heap a).parent) (heap b).parent path)
    {w w' : UInt64} (h : widenIndent fuel heap b w = .ok w') :
    w ≤ w' ∧ Covers heap w' b path := by
  rw [widenIndent, Run.bind_eq_ok] at h
  obtain ⟨depth, hdepth, h⟩ := h
  obtain rfl := bridgeDepth_eq hpath hdepth
  split at h
  · cases h
  · dsimp only at h
    have hbridge := le_ite_gt (bridgeIndent (heap b) (.ofNat path.length)) w
    generalize (if bridgeIndent (heap b) (.ofNat path.length) > w then
      bridgeIndent (heap b) (.ofNat path.length) else w) = w₁ at hbridge h
    split at h
    · obtain rfl := Except.ok.inj h
      have hchild := le_ite_gt (childIndent (.ofNat path.length)) w₁
      exact ⟨UInt64.le_trans hbridge.1 hchild.1, UInt64.le_trans hbridge.2 hchild.1,
        fun _ => hchild.2⟩
    · rename_i hnone
      obtain rfl := Except.ok.inj h
      exact ⟨hbridge.1, hbridge.2, fun hsome => absurd hsome hnone⟩

/-- The column covers all bridges of the list. -/
theorem covers_findIndentMaxLength {bridges : List Addr}
    (hchain : Linked (fun a => (heap a).chain) (heap hostBridge).chain bridges)
    {w : UInt64} (h : findIndentMaxLength fuel heap = .ok w) (hb : b ∈ bridges)
    (hclimbs : ∀ b ∈ bridges, ∃ path, Linked (fun a => (heap a).parent) (heap b).parent path)
    (hpath : Linked (fun a => (heap a).parent) (heap b).parent path) : Covers heap w b path := by
  have hall : ∀ b ∈ [] ++ bridges, ∀ path,
      Linked (fun a => (heap a).parent) (heap b).parent path → Covers heap w b path := by
    unfold findIndentMaxLength at h
    refine forEach_visited (f := fun a => (heap a).chain) (I := fun done w => ∀ b ∈ done, ∀ path,
      Linked (fun a => (heap a).parent) (heap b).parent path → Covers heap w b path)
      (fun _ _ _ _ _ => rfl) ?_ (fun b hb => absurd hb List.not_mem_nil) hchain h
    intro done a ha w w' hdone hstep b hb path hpath
    rcases List.mem_append.mp hb with hb | hb
    · obtain ⟨path', hpath'⟩ := hclimbs a ha
      exact (hdone b hb path hpath).mono (covers_widenIndent hpath' hstep).1
    · obtain rfl := List.mem_singleton.mp hb
      exact (covers_widenIndent hpath hstep).2
  exact hall b (by simpa using hb) path hpath

theorem toNat_childIndent {n : Nat} (hn : n ≤ 200) : (childIndent (.ofNat n)).toNat = n + 1 := by
  have hsum : childIndent (.ofNat n) = .ofNat n + 1 := by
    show (1 + 0) * UInt64.ofNat n + 1 - 0 = _
    rw [show (1 + 0 : UInt64) = 1 from rfl, UInt64.one_mul, UInt64.sub_zero]
  rw [hsum, UInt64.toNat_add, toNat_indentLength hn, show (1 : UInt64).toNat = 1 from rfl]
  omega

theorem toNat_bridgeIndent {n : Nat} (hn : n + 1 ≤ 200) (d : PciIoDevice) :
    (bridgeIndent d (.ofNat (n + 1))).toNat =
      n + 1 + if d.pci.secondaryBus = d.pci.subordinateBus then 5 else 8 := by
  have hsum : bridgeIndent d (.ofNat (n + 1)) =
      .ofNat n + 1 + if d.pci.secondaryBus = d.pci.subordinateBus then 5 else 8 := by
    show (1 + 0) * (UInt64.ofNat (n + 1) - 1) + 1 - 0 + _ = _
    rw [UInt64.ofNat_add, show UInt64.ofNat 1 = 1 from rfl, UInt64.add_sub_cancel,
      show (1 + 0 : UInt64) = 1 from rfl, UInt64.one_mul, UInt64.sub_zero]
  rw [hsum, UInt64.toNat_add, UInt64.toNat_add, toNat_indentLength (by omega),
    show (1 : UInt64).toNat = 1 from rfl]
  split
  · rw [show (5 : UInt64).toNat = 5 from rfl]
    omega
  · rw [show (8 : UInt64).toNat = 8 from rfl]
    omega

end width

/-! ## Well-formed trees -/

/-- A device tree whose segments have devices, whose list of bridges has all bridges of
the tree, whose parents are bridges, and whose devices are less than 199 generations below
their root bridges. -/
structure WellFormedTree (heap : Heap) (forest : Forest Addr) : Prop
    extends DeviceTree heap forest where
  populated : Populated heap forest
  bridges : ∃ bridges, Linked (fun a => (heap a).chain) (heap hostBridge).chain bridges ∧
    ∀ b, b ∈ bridges ↔ b ∈ forest.preorder ∧ (heap b).pciType1 = true
  parents : ∀ a ∈ forest.preorder, (heap a).firstChild ≠ none → (heap a).pciType1 = true
  depth : ∀ r ∈ forest.roots, ∀ a ∈ forest.preorder, ∀ depth, DepthBelow heap r depth a →
    depth < 199

/-- The list of bridges of a tree that `GetPciDevices` builds has all bridges of the tree,
and records get children only if they are bridges. -/
theorem Built.wellFormedTree {s : Collect} {array : List Addr} {heap : Heap}
    (h : Built s array heap) (hs : Collected s) {forest : Forest Addr}
    (htree : DeviceTree heap forest) (hforest : ∀ a, a ∈ forest.preorder ↔ a ∈ array)
    (hpopulated : Populated heap forest)
    (hdepth : ∀ r ∈ forest.roots, ∀ a ∈ forest.preorder, ∀ depth, DepthBelow heap r depth a →
      depth < 199) : WellFormedTree heap forest := by
  refine ⟨htree, hpopulated, ⟨_, h.chain.linked.2, fun b => ?_⟩, fun a ha hfirst => ?_, hdepth⟩
  · rw [List.mem_filter, hforest, h.registers.pciType1]
  · have hmem := (hforest a).mp ha
    obtain ⟨b, hb⟩ : ∃ b,
        b ∈ childrenOf s.heap (array.filter fun a => (s.heap a).pciType1) array a := by
      rw [h.children.firstChild] at hfirst
      exact List.exists_mem_of_ne_nil _ (by rintro hnil; exact hfirst (by rw [hnil]; rfl))
    obtain ⟨hbarray, hbest⟩ := List.mem_filter.mp hb
    obtain ⟨p, hp, hbridge⟩ := h.best b hbarray
    obtain rfl : p = a := Option.some.inj (hp.symm.trans (of_decide_eq_true hbest))
    rcases List.mem_cons.mp hbridge.mem with rfl | hbridge
    · exact absurd (hs.mem _ (h.perm.mem_iff.mp hmem)).1 (lt_irrefl _)
    · rw [h.registers.pciType1]
      exact (List.mem_filter.mp hbridge).2

/-- Two heaps have the same bridges with the same bus numbers. -/
structure SameBridges (heap heap' : Heap) : Prop where
  pciType1 : ∀ a, (heap' a).pciType1 = (heap a).pciType1
  secondaryBus : ∀ a, (heap' a).pci.secondaryBus = (heap a).pci.secondaryBus
  subordinateBus : ∀ a, (heap' a).pci.subordinateBus = (heap a).pci.subordinateBus

theorem SameBridges.refl (heap : Heap) : SameBridges heap heap := by
  constructor <;> exact fun _ => rfl

theorem SameBridges.trans {heap₁ heap₂ heap₃ : Heap} (h : SameBridges heap₁ heap₂)
    (h' : SameBridges heap₂ heap₃) : SameBridges heap₁ heap₃ where
  pciType1 a := (h'.pciType1 a).trans (h.pciType1 a)
  secondaryBus a := (h'.secondaryBus a).trans (h.secondaryBus a)
  subordinateBus a := (h'.subordinateBus a).trans (h.subordinateBus a)

/-- Two heaps have the same tree with the same bridges. -/
structure SameShape (heap heap' : Heap) : Prop where
  tree : SameTree heap heap'
  bridges : SameBridges heap heap'

theorem SameShape.refl (heap : Heap) : SameShape heap heap := ⟨.refl heap, .refl heap⟩

/-- A callback that leaves the bridges as they are. -/
structure PrintVisitor (σ : Type _) extends Visitor σ where
  keepsBridges : ∀ {a s s'}, callback a s = .ok s' → SameBridges (heap s) (heap s')

section tree

variable {heap : Heap} {forest : Forest Addr} {t : Addr × Forest Addr} {path : List Addr}
  {a : Addr} {fuel : Nat} {indentMaxLength : UInt64}

theorem WellFormedTree.length_le (htree : WellFormedTree heap forest) (ht : t ∈ forest.trees)
    (h : BelowRoot heap t path a) : path.length ≤ 197 := by
  have hdepth := htree.depth t.1 (Forest.fst_mem_roots ht) a
    (Forest.mem_preorder_of_tree ht (.inr h.mem)) _ h.depthBelow
  omega

/-- Every device of the tree climbs to the host bridge. -/
theorem WellFormedTree.climbs (htree : WellFormedTree heap forest) (ha : a ∈ forest.preorder) :
    ∃ path, Linked (fun a => (heap a).parent) (heap a).parent path := by
  obtain ⟨l, r, -, hpath, -⟩ := htree.represents.ancestors htree.hostPath ha
  cases l with
  | nil =>
      obtain ⟨har, hpath⟩ := hpath
      obtain rfl := Option.some.inj har
      exact ⟨_, hpath⟩
  | cons b l =>
      obtain ⟨hab, hpath⟩ := hpath
      obtain rfl := Option.some.inj hab
      exact ⟨_, hpath⟩

theorem WellFormedTree.covers (htree : WellFormedTree heap forest)
    (hwidth : findIndentMaxLength fuel heap = .ok indentMaxLength) (ha : a ∈ forest.preorder)
    (htype : (heap a).pciType1 = true)
    (hpath : Linked (fun a => (heap a).parent) (heap a).parent path) :
    Covers heap indentMaxLength a path := by
  obtain ⟨bridges, hchain, hmem⟩ := htree.bridges
  exact covers_findIndentMaxLength hchain hwidth ((hmem a).mpr ⟨ha, htype⟩)
    (fun b hb => htree.climbs ((hmem b).mp hb).1) hpath

/-- The parent of a device makes room for the line of the device. -/
theorem WellFormedTree.child_le (htree : WellFormedTree heap forest)
    (hwidth : findIndentMaxLength fuel heap = .ok indentMaxLength) (ht : t ∈ forest.trees)
    (h : BelowRoot heap t path a) : path.length + 2 ≤ indentMaxLength.toNat := by
  obtain ⟨-, hforest, -⟩ := htree.represents.tree ht
  obtain ⟨b, hparent, hb⟩ := hforest.parent_of_mem h.mem
  have hmem : b ∈ forest.preorder ∧ (heap b).firstChild ≠ none := by
    rcases hb with ⟨rfl, hfirst⟩ | ⟨hb, hfirst⟩
    · exact ⟨Forest.mem_preorder_of_tree ht (.inl rfl), hfirst⟩
    · exact ⟨Forest.mem_preorder_of_tree ht (.inr hb), hfirst⟩
  have hlinked := h.linked
  have hlength := htree.length_le ht h
  rw [show (heap a).parent = some b from hparent] at hlinked
  -- The ancestors of the parent are those of the device without the parent.
  have hcovers : ∃ rest, rest.length = path.length + 1 ∧ Covers heap indentMaxLength b rest := by
    cases hpath : path ++ [t.1, hostBridge] with
    | nil => simp at hpath
    | cons c rest =>
        rw [hpath] at hlinked
        obtain ⟨hbc, hrest⟩ := hlinked
        obtain rfl := Option.some.inj hbc
        have hcount := congrArg List.length hpath
        rw [List.length_append, List.length_cons] at hcount
        refine ⟨rest, ?_, htree.covers hwidth hmem.1 (htree.parents b hmem.1 hmem.2) hrest⟩
        simp only [List.length_cons, List.length_nil] at hcount
        omega
  obtain ⟨rest, hrest, hcovers⟩ := hcovers
  have hchild := hcovers.child (Option.isSome_iff_ne_none.mpr hmem.2)
  rw [UInt64.le_iff_toNat_le, hrest, toNat_childIndent (by omega)] at hchild
  exact hchild

/-- A bridge makes room for its own line. -/
theorem WellFormedTree.bridge_le (htree : WellFormedTree heap forest)
    (hwidth : findIndentMaxLength fuel heap = .ok indentMaxLength) (ht : t ∈ forest.trees)
    (h : BelowRoot heap t path a) (htype : (heap a).pciType1 = true) :
    path.length + 2 + (if (heap a).pci.secondaryBus = (heap a).pci.subordinateBus then 5 else 8) ≤
      indentMaxLength.toNat := by
  have hlength := htree.length_le ht h
  have hbridge := (htree.covers hwidth (Forest.mem_preorder_of_tree ht (.inr h.mem)) htype
    h.linked).bridge
  have hcount : (path ++ [t.1, hostBridge]).length = path.length + 1 + 1 := by
    rw [List.length_append]
    rfl
  rw [UInt64.le_iff_toNat_le, hcount, toNat_bridgeIndent (by omega)] at hbridge
  exact hbridge

/-- The line of a device, with the bus numbers it had when the width was found. -/
theorem WellFormedTree.lineFits (htree : WellFormedTree heap forest)
    (hwidth : findIndentMaxLength fuel heap = .ok indentMaxLength) (ht : t ∈ forest.trees)
    (h : BelowRoot heap t path a) {heap' : Heap} (hsame : SameBridges heap heap')
    {indentString : List UInt16} (hstring : stringLength indentString = path.length + 2) :
    LineFits (heap' a) indentString indentMaxLength := by
  have hbuses := length_getBusesString (heap' a)
  rw [hsame.pciType1, hsame.secondaryBus, hsame.subordinateBus] at hbuses
  rw [LineFits, hstring]
  cases htype : (heap a).pciType1 with
  | false =>
      have hchild := htree.child_le hwidth ht h
      rw [htype, if_pos rfl] at hbuses
      omega
  | true =>
      have hbridge := htree.bridge_le hwidth ht h htype
      rw [htype, if_neg (by simp)] at hbuses
      omega

end tree

/-! ## Every place of a run -/

/-- What is true at a loop head, but for the records. -/
def PlaceHolds {σ : Type _} (heap : Heap) (forest : Forest Addr) : Place → Iteration σ → Prop
  | .segments p, it => it.indentString.length = 200 ∧ ∀ r, p = some r → ∃ t ∈ forest.trees, t.1 = r
  | .devices p, it =>
      ∀ a, p = some a → ∃ t ∈ forest.trees, ∃ path, BelowRoot heap t path a ∧
        Indented path.length it

section run

variable {σ : Type _} {v : PrintVisitor σ} {state : σ} {forest : Forest Addr}
  {indentMaxLength : UInt64} {place : Place} {it it' : Iteration σ}

theorem Indented.call {n : Nat} {a : Addr} (h : Indented n it)
    (hcall : v.call a it = .ok it') : Indented n it' := by
  obtain ⟨state', -, rfl⟩ := Visitor.call_eq_ok.mp hcall
  exact ⟨h.indentLength, h.length, h.units⟩

/-- The records after a callback. -/
theorem PrintVisitor.call_same {heap : Heap} {a : Addr}
    (hsame : SameShape heap (v.heap it.state)) (hcall : v.call a it = .ok it') :
    SameShape heap (v.heap it'.state) := by
  obtain ⟨state', hcallback, rfl⟩ := Visitor.call_eq_ok.mp hcall
  exact ⟨hsame.tree.trans (v.keepsTree hcallback), hsame.bridges.trans (v.keepsBridges hcallback)⟩

theorem indented_startSegment {d : PciIoDevice} (h : it.indentString.length = 200) :
    Indented 0 (startSegment true d it) := by
  refine ⟨rfl, ?_, fun u hu => ?_⟩
  · show (it.indentString.set 0 0).length = 200
    rw [List.length_set, h]
  · rw [List.take_zero] at hu
    cases hu

/-- The first device of a segment. -/
theorem WellFormedTree.belowRoot {heap : Heap} (htree : WellFormedTree heap forest)
    {t : Addr × Forest Addr} (ht : t ∈ forest.trees) {c : Addr}
    (hfirst : (heap t.1).firstChild = some c) : BelowRoot heap t [] c := by
  obtain ⟨hroot, hforest, -⟩ := htree.represents.tree ht
  rw [show heap.links.firstChild t.1 = some c from hfirst] at hforest
  obtain ⟨hmem, hparent, -⟩ := hforest.first
  refine ⟨hmem, fun p hp => absurd hp List.not_mem_nil, ?_⟩
  rw [show (heap c).parent = some t.1 from hparent]
  exact ⟨rfl, hroot, htree.parent⟩

/-- One iteration of the loop over the devices. -/
theorem WellFormedTree.step {heap : Heap} (htree : WellFormedTree heap forest)
    (hsame : SameShape heap (v.heap it.state)) {t : Addr × Forest Addr} (ht : t ∈ forest.trees)
    {path : List Addr} {a d : Addr}
    (h : BelowRoot heap t path a) (hit : Indented path.length it) {it₁ : Iteration σ} {fuel : Nat}
    (hcall : v.call a (printDevice true indentMaxLength (v.heap it.state a) it) = .ok it₁)
    (hnext : nextDevice v.toVisitor true fuel a it₁ = .ok (some d, it')) :
    SameShape heap (v.heap it'.state) ∧
      it'.printed = (printDevice true indentMaxLength (v.heap it.state a) it).printed ∧
      it'.indentString.length = 200 ∧
      (d = t.1 ∨ ∃ path', BelowRoot heap t path' d ∧ Indented path'.length it') := by
  have hlength := htree.length_le ht h
  obtain ⟨-, hforest, -⟩ := htree.represents.tree ht
  have hroot := htree.segment t.1 (Forest.fst_mem_roots ht)
  obtain ⟨indentString, hline, -, hprinted⟩ :=
    hit.printDevice hlength (v.heap it.state a) indentMaxLength
  have hsame₀ : SameShape heap
      (v.heap (printDevice true indentMaxLength (v.heap it.state a) it).state) := by
    rwa [printDevice_state]
  have hsame₁ := PrintVisitor.call_same hsame₀ hcall
  obtain ⟨hstate, htext, hstring, hd⟩ := h.nextDevice hforest hroot (htree.populated t ht).2
    hsame₁.tree (hprinted.call hcall) hlength hnext
  obtain ⟨state', -, rfl⟩ := Visitor.call_eq_ok.mp hcall
  rw [hstate]
  exact ⟨hsame₁, htext, hstring, hd⟩

/-- The tree stays, and at the loop over the devices the indentation goes with the
ancestors of the device. -/
theorem placeHolds_of_comesTo (htree : WellFormedTree (v.heap state) forest)
    (h : ComesTo v.toVisitor true indentMaxLength state place it) :
    SameShape (v.heap state) (v.heap it.state) ∧ PlaceHolds (v.heap state) forest place it := by
  induction h with
  | start =>
      refine ⟨.refl _, rfl, fun r hr => ?_⟩
      have hrepresents := htree.represents
      rw [hr] at hrepresents
      exact hrepresents.first.2.2
  | @enter a it it' _ hcall ih =>
      obtain ⟨hsame, hlength, hsegment⟩ := ih
      obtain ⟨t, ht, rfl⟩ := hsegment a rfl
      have hsame₀ : SameShape (v.heap state)
          (v.heap (startSegment true (v.heap it.state t.1) it).state) := by
        rwa [startSegment_state]
      have hsame' := PrintVisitor.call_same hsame₀ hcall
      refine ⟨hsame', fun c hc => ?_⟩
      rw [hsame'.tree.firstChild] at hc
      exact ⟨t, ht, [], htree.belowRoot ht hc, (indented_startSegment hlength).call hcall⟩
  | @next fuel a d it it₁ it₂ _ hcall hnext hparent ih =>
      obtain ⟨hsame, hdevice⟩ := ih
      obtain ⟨t, ht, path, hbelow, hit⟩ := hdevice a rfl
      obtain ⟨hsame', -, -, rfl | ⟨path', hd, hit'⟩⟩ := htree.step hsame ht hbelow hit hcall hnext
      · -- The loop does not go on at a root bridge.
        rw [hsame'.tree.parent] at hparent
        exact absurd (htree.represents.tree ht).1 hparent
      · refine ⟨hsame', fun e he => ?_⟩
        obtain rfl := Option.some.inj he
        exact ⟨t, ht, path', hd, hit'⟩
  | @leave fuel a d it it₁ it₂ _ hcall hnext hparent ih =>
      obtain ⟨hsame, hdevice⟩ := ih
      obtain ⟨t, ht, path, hbelow, hit⟩ := hdevice a rfl
      obtain ⟨hroot, -, hsibling⟩ := htree.represents.tree ht
      obtain ⟨hsame', -, hlength, rfl | ⟨path', hd, -⟩⟩ :=
        htree.step hsame ht hbelow hit hcall hnext
      · refine ⟨hsame', hlength, fun r hr => ?_⟩
        rw [hsame'.tree.nextSibling] at hr
        exact hsibling r hr
      · -- The loop is not left at a device.
        rw [hsame'.tree.parent] at hparent
        exact absurd hparent
          (hd.parent_ne (ne_hostBridge_of_parent htree.parent hroot) htree.parent)

/-- The line that is printed at the head of the loop over the devices. -/
theorem line_of_comesTo (htree : WellFormedTree (v.heap state) forest) {fuel : Nat}
    (hwidth : findIndentMaxLength fuel (v.heap state) = .ok indentMaxLength) {a : Addr}
    (h : ComesTo v.toVisitor true indentMaxLength state (.devices (some a)) it) :
    (∃ r ∈ forest.roots, DepthBelow (v.heap state) r (it.indentLength.toNat + 1) a) ∧
      ∃ indentString,
        (printDevice true indentMaxLength (v.heap it.state a) it).printed =
          it.printed ++ [.device (v.heap it.state a) indentString indentMaxLength] ∧
        LineFits (v.heap it.state a) indentString indentMaxLength := by
  obtain ⟨hrecords, hdevice⟩ := placeHolds_of_comesTo htree h
  obtain ⟨t, ht, path, hbelow, hit⟩ := hdevice a rfl
  have hlength := htree.length_le ht hbelow
  obtain ⟨indentString, hline, hstring, -⟩ :=
    hit.printDevice hlength (v.heap it.state a) indentMaxLength
  refine ⟨⟨t.1, Forest.fst_mem_roots ht, ?_⟩, indentString, ?_,
    htree.lineFits hwidth ht hbelow hrecords.bridges hstring⟩
  · rw [hit.indentLength, toNat_indentLength (by omega)]
    exact hbelow.depthBelow
  · rw [hline]

/-- One iteration of the loop over the devices prints one line. -/
theorem printed_of_comesTo (htree : WellFormedTree (v.heap state) forest) {fuel fuel' : Nat}
    (hwidth : findIndentMaxLength fuel (v.heap state) = .ok indentMaxLength) {a d : Addr}
    (h : ComesTo v.toVisitor true indentMaxLength state (.devices (some a)) it)
    {it₁ : Iteration σ}
    (hcall : v.call a (printDevice true indentMaxLength (v.heap it.state a) it) = .ok it₁)
    (hnext : nextDevice v.toVisitor true fuel' a it₁ = .ok (some d, it')) :
    ∃ device indentString,
      it'.printed = it.printed ++ [.device device indentString indentMaxLength] ∧
        LineFits device indentString indentMaxLength := by
  obtain ⟨hsame, hdevice⟩ := placeHolds_of_comesTo htree h
  obtain ⟨-, indentString, hline, hfits⟩ := line_of_comesTo htree hwidth h
  obtain ⟨t, ht, path, hbelow, hit⟩ := hdevice a rfl
  obtain ⟨-, hprinted, -⟩ := htree.step hsame ht hbelow hit hcall hnext
  exact ⟨_, indentString, hprinted.trans hline, hfits⟩

/-- All lines so far. -/
theorem lineFits_of_comesTo (htree : WellFormedTree (v.heap state) forest) {fuel : Nat}
    (hwidth : findIndentMaxLength fuel (v.heap state) = .ok indentMaxLength)
    (h : ComesTo v.toVisitor true indentMaxLength state place it) {d : PciIoDevice}
    {indentString : List UInt16} {w : UInt64} (hmem : .device d indentString w ∈ it.printed) :
    LineFits d indentString w := by
  -- An iteration adds a line that fits to lines that do.
  have hadd : ∀ {it it' : Iteration σ} {device s},
      it'.printed = it.printed ++ [.device device s indentMaxLength] →
      LineFits device s indentMaxLength →
      (.device d indentString w ∈ it.printed → LineFits d indentString w) →
      .device d indentString w ∈ it'.printed → LineFits d indentString w := by
    intro it it' device s hprinted hfits hbefore hmem
    rw [hprinted, List.mem_append, List.mem_singleton] at hmem
    rcases hmem with hmem | hmem
    · exact hbefore hmem
    · obtain ⟨rfl, rfl, rfl⟩ := Printed.device.inj hmem
      exact hfits
  induction h with
  | start => cases hmem
  | @enter a it it' _ hcall ih =>
      obtain ⟨state', -, rfl⟩ := Visitor.call_eq_ok.mp hcall
      have hprinted : .device d indentString w ∈
          it.printed ++ [Printed.segment (v.heap it.state a).segmentNumber] := hmem
      exact ih (by simpa using hprinted)
  | next hplace hcall hnext _ ih =>
      obtain ⟨device, s, hprinted, hfits⟩ := printed_of_comesTo htree hwidth hplace hcall hnext
      exact hadd hprinted hfits ih hmem
  | leave hplace hcall hnext _ ih =>
      obtain ⟨device, s, hprinted, hfits⟩ := printed_of_comesTo htree hwidth hplace hcall hnext
      exact hadd hprinted hfits ih hmem

end run

theorem WellFormedTree.bridgesInTree {heap : Heap} {forest : Forest Addr}
    (h : WellFormedTree heap forest) : BridgesInTree heap forest := by
  obtain ⟨bridges, hchain, hmem⟩ := h.bridges
  exact ⟨bridges, hchain, fun b hb => (hmem b).mp hb⟩

/-- On a well-formed tree the column is found, and wherever a run is about to print the
line of a device, `IndentLength` is one less than the number of generations from the root
bridge to the device, the line with the bus numbers is no longer than `IndentMaxLength`,
and the width of the blanks behind it does not wrap.  So it is for all lines of a run that
returns. -/
theorem pciTreeIterate_lineFits {σ : Type _} (v : PrintVisitor σ) {state : σ}
    {forest : Forest Addr} (htree : WellFormedTree (v.heap state) forest) :
    (∃ fuel₁, ∀ fuel ≥ fuel₁, (findIndentMaxLength fuel (v.heap state)).Returns) ∧
      (∀ fuel indentMaxLength, findIndentMaxLength fuel (v.heap state) = .ok indentMaxLength →
        ∀ a it, ComesTo v.toVisitor true indentMaxLength state (.devices (some a)) it →
          (∃ r ∈ forest.roots, DepthBelow (v.heap state) r (it.indentLength.toNat + 1) a) ∧
          ∃ indentString,
            (printDevice true indentMaxLength (v.heap it.state a) it).printed =
              it.printed ++ [.device (v.heap it.state a) indentString indentMaxLength] ∧
            LineFits (v.heap it.state a) indentString indentMaxLength ∧
            (outputWidth (v.heap it.state a) indentString indentMaxLength).toNat =
              indentMaxLength.toNat - stringLength indentString -
                (getBusesString (v.heap it.state a) false).length) ∧
      ∀ fuel it, pciTreeIterate v.toVisitor true fuel state = .ok it →
        ∀ d indentString indentMaxLength, .device d indentString indentMaxLength ∈ it.printed →
          LineFits d indentString indentMaxLength := by
  refine ⟨findIndentMaxLength_returns htree.toDeviceTree htree.bridgesInTree, ?_, ?_⟩
  · intro fuel indentMaxLength hwidth a it h
    obtain ⟨hdepth, indentString, hline, hfits⟩ := line_of_comesTo htree hwidth h
    exact ⟨hdepth, indentString, hline, hfits, hfits.outputWidth⟩
  · intro fuel it h d indentString w hmem
    obtain ⟨indentMaxLength, hwidth, -⟩ := Run.bind_eq_ok.mp h
    exact lineFits_of_comesTo htree hwidth (comesTo_of_pciTreeIterate hwidth h) hmem

/-- A callback that does nothing but to note the device. -/
def notePrinted (heap : Heap) : PrintVisitor (List Addr) where
  toVisitor := noteDevices heap
  keepsBridges _ := .refl heap

/-- Where parents have smaller addresses, no device is deeper than its address. -/
theorem DepthBelow.le {heap : Heap} (hless : ∀ a p, (heap a).parent = some p → p < a) {r a : Addr}
    {depth : Nat} (h : DepthBelow heap r depth a) : depth ≤ a := by
  induction depth generalizing a with
  | zero => exact Nat.zero_le a
  | succ depth ih =>
      obtain ⟨p, hp, h⟩ := h
      exact Nat.succ_le_of_lt ((ih h).trans_lt (hless a p hp))

theorem wellFormedTree_twoSegments : WellFormedTree twoSegments twoSegmentsForest := by
  have hless : ∀ a p, (twoSegments a).parent = some p → p < a := by
    rintro (_ | _ | _ | _ | _ | _ | _ | a) p hp <;> first | cases hp; decide | cases hp
  refine ⟨deviceTree_twoSegments, populated_twoSegments, ⟨[1, 2, 3, 4], chain_twoSegments, ?_⟩,
    by decide, fun r _ a ha depth h => ?_⟩
  · have hbridges : ∀ a ∈ twoSegmentsForest.preorder,
        a ∈ [1, 2, 3, 4] ↔ (twoSegments a).pciType1 = true := by decide
    intro b
    by_cases hb : b ∈ twoSegmentsForest.preorder
    · rw [hbridges b hb, and_iff_right hb]
    · have hlisted : ∀ a ∈ [1, 2, 3, 4], a ∈ twoSegmentsForest.preorder := by decide
      exact iff_of_false (fun hmem => hb (hlisted b hmem)) fun h => hb h.1
  · have hsmall : ∀ a ∈ twoSegmentsForest.preorder, a < 199 := by decide
    exact (h.le hless).trans_lt (hsmall a ha)

theorem pciTreeIterate_lineFits_twoSegments :
    ∃ it, pciTreeIterate (notePrinted twoSegments).toVisitor true 10 [] = .ok it ∧
      it.printed.length = 6 ∧
      ∀ d indentString indentMaxLength, .device d indentString indentMaxLength ∈ it.printed →
        LineFits d indentString indentMaxLength := by
  have hlines : (pciTreeIterate (notePrinted twoSegments).toVisitor true 10 []).map
      (fun it => it.printed.length) = .ok 6 := by decide +kernel
  cases hrun : pciTreeIterate (notePrinted twoSegments).toVisitor true 10 [] with
  | error e =>
      rw [hrun] at hlines
      cases hlines
  | ok it =>
      rw [hrun] at hlines
      exact ⟨it, rfl, Except.ok.inj hlines, (pciTreeIterate_lineFits (notePrinted twoSegments)
        wellFormedTree_twoSegments).2.2 10 it hrun⟩

end PciMisc
end EfiApps
