import EfiApps.PciIds.ReadPciIds
import Mathlib.Data.List.GetD

/-!
# Texts in the format of `pci.ids`

A text is a list of lines.  Comments and blank lines may stand anywhere; the
other lines, read from top to bottom, are the trees of vendors and classes in
preorder, so that every line follows the line it belongs to.
-/

namespace EfiApps
namespace PciIds

/-- A line with a value. -/
structure IdLine where
  kind : ItemKind
  value : UInt64
  name : List UInt16
  deriving DecidableEq, Repr

/-- A line. -/
inductive Line
  | blank
  | comment (text : List UInt16)
  | item (item : IdLine)
  deriving DecidableEq, Repr

/-- A lowercase hexadecimal digit. -/
def hexDigit (d : Nat) : UInt16 := .ofNat (if d < 10 then 0x30 + d else 0x57 + d)

/-- Two digits. -/
def hex8 (v : Nat) : List UInt16 := [hexDigit (v / 16 % 16), hexDigit (v % 16)]

/-- Four digits. -/
def hex16 (v : Nat) : List UInt16 := hex8 (v / 256) ++ hex8 v

/-- The indentation and the ID of a line. -/
def idText (kind : ItemKind) (v : Nat) : List UInt16 :=
  match kind with
  | .subsystem => [0x09, 0x09] ++ hex16 (v / 65536) ++ [0x20] ++ hex16 v
  | .device => [0x09] ++ hex16 v
  | .vendor => hex16 v
  | .progif => [0x09, 0x09] ++ hex8 v
  | .subclass => [0x09] ++ hex8 v
  | .baseClass => [0x43, 0x20] ++ hex8 v

/-- The text of a line with a value. -/
def IdLine.units (i : IdLine) : List UInt16 :=
  idText i.kind i.value.toNat ++ [0x20, 0x20] ++ i.name

/-- The text of a line, without the line feed. -/
def Line.units : Line → List UInt16
  | blank => []
  | comment text => 0x23 :: text
  | item i => i.units

/-- The IDs of a kind are below this number. -/
def ItemKind.valueBound : ItemKind → Nat
  | baseClass | subclass | progif => 256
  | vendor | device => 65536
  | subsystem => 4294967296

/-- The ID fits and the name is a string of one line. -/
structure IdLine.Valid (i : IdLine) : Prop where
  value : i.value.toNat < i.kind.valueBound
  name : ∀ u ∈ i.name, u ≠ 0 ∧ u ≠ 0x0a

instance (i : IdLine) : Decidable i.Valid :=
  decidable_of_iff (i.value.toNat < i.kind.valueBound ∧ i.name.all fun u => u ≠ 0 && u ≠ 0x0a)
    ⟨fun h => ⟨h.1, by simpa using h.2⟩, fun h => ⟨h.value, by simpa using h.name⟩⟩

/-- What a line has to meet: no line feed in it, and fewer than 65535 units. -/
structure Line.Valid (line : Line) : Prop where
  length : line.units.length < 65535
  comment : ∀ text, line = .comment text → ∀ u ∈ text, u ≠ 0x0a
  item : ∀ i, line = .item i → i.Valid

/-- The lines with their line feeds. -/
def renderLines (lines : List Line) : List UInt16 := lines.flatMap fun line => line.units ++ [0x0a]

/-- The value on a line. -/
def Line.item? : Line → Option IdLine
  | item i => some i
  | _ => none

/-- The line of an ID that has nothing below it. -/
def leafLine (k : ItemKind) (node : IdLeaf) : IdLine := ⟨k, node.value, node.name⟩

/-- The lines of an ID and of what is below it. -/
def branchLines (k k' : ItemKind) (node : IdBranch) : List IdLine :=
  ⟨k, node.value, node.name⟩ :: node.children.map (leafLine k')

/-- The lines of a tree. -/
def treeLines (k k' k'' : ItemKind) (node : IdTree) : List IdLine :=
  ⟨k, node.value, node.name⟩ :: node.children.flatMap (branchLines k' k'')

/-- A tree of the text. -/
inductive Entry
  | vendor (tree : IdTree)
  | baseClass (tree : IdTree)
  deriving DecidableEq, Repr

namespace Entry

/-- The lines of a tree. -/
def lines : Entry → List IdLine
  | vendor tree => treeLines .vendor .device .subsystem tree
  | baseClass tree => treeLines .baseClass .subclass .progif tree

/-- The tree, if it is that of a vendor. -/
def vendor? : Entry → Option IdTree
  | vendor tree => some tree
  | baseClass _ => none

/-- The tree, if it is that of a class. -/
def baseClass? : Entry → Option IdTree
  | vendor _ => none
  | baseClass tree => some tree

end Entry

/-- A text in the format of `pci.ids`: whether it starts with a byte order mark, its
lines, and the trees that they list. -/
structure IdsText where
  bom : Bool
  lines : List Line
  entries : List Entry
  valid : ∀ line ∈ lines, line.Valid
  items : lines.filterMap Line.item? = entries.flatMap Entry.lines

namespace IdsText

/-- The units of the text. -/
def units (text : IdsText) : List UInt16 :=
  (if text.bom then [0xfeff] else []) ++ renderLines text.lines

/-- The trees of the vendors. -/
def vendors (text : IdsText) : List IdTree := text.entries.filterMap Entry.vendor?

/-- The trees of the classes. -/
def classes (text : IdsText) : List IdTree := text.entries.filterMap Entry.baseClass?

end IdsText

namespace IdsText

variable (text : IdsText) {i : IdLine}

/-- The lines of the trees are valid. -/
theorem valid_of_mem (h : i ∈ text.entries.flatMap Entry.lines) : i.Valid := by
  rw [← text.items] at h
  obtain ⟨line, hmem, hline⟩ := List.mem_filterMap.mp h
  cases line with
  | blank => cases hline
  | comment text => cases hline
  | item i' =>
      obtain rfl : i' = i := Option.some.inj hline
      exact (text.valid _ hmem).item _ rfl

/-- The lines of a vendor are lines of the text. -/
theorem mem_of_vendors {tree : IdTree} (htree : tree ∈ text.vendors)
    (hi : i ∈ treeLines .vendor .device .subsystem tree) :
    i ∈ text.entries.flatMap Entry.lines := by
  obtain ⟨entry, hentry, htree⟩ := List.mem_filterMap.mp htree
  refine List.mem_flatMap.mpr ⟨entry, hentry, ?_⟩
  cases entry with
  | vendor tree' =>
      obtain rfl : tree' = tree := Option.some.inj htree
      exact hi
  | baseClass tree' => cases htree

/-- The lines of a class are lines of the text. -/
theorem mem_of_classes {tree : IdTree} (htree : tree ∈ text.classes)
    (hi : i ∈ treeLines .baseClass .subclass .progif tree) :
    i ∈ text.entries.flatMap Entry.lines := by
  obtain ⟨entry, hentry, htree⟩ := List.mem_filterMap.mp htree
  refine List.mem_flatMap.mpr ⟨entry, hentry, ?_⟩
  cases entry with
  | vendor tree' => cases htree
  | baseClass tree' =>
      obtain rfl : tree' = tree := Option.some.inj htree
      exact hi

end IdsText

/-! ## Reading units -/

section TextAt

variable {mem mem' : Nat → UInt16} {o : Nat} {u : UInt16} {units units' : List UInt16}

@[simp] theorem textAt_nil : TextAt mem o [] := fun i h => absurd h (Nat.not_lt_zero i)

theorem textAt_cons_iff : TextAt mem o (u :: units) ↔ mem o = u ∧ TextAt mem (o + 1) units := by
  constructor
  · intro h
    refine ⟨h 0 (by simp), fun i hi => ?_⟩
    have hnext := h (i + 1) (by simpa using hi)
    simpa [Nat.add_assoc, Nat.add_comm 1 i] using hnext
  · rintro ⟨hu, h⟩ i hi
    cases i with
    | zero => exact hu
    | succ i =>
        have hnext := h i (by simpa using hi)
        simpa [Nat.add_assoc, Nat.add_comm 1 i] using hnext

theorem textAt_append_iff :
    TextAt mem o (units ++ units') ↔ TextAt mem o units ∧ TextAt mem (o + units.length) units' := by
  induction units generalizing o with
  | nil => simp
  | cons u units ih =>
      rw [List.cons_append, textAt_cons_iff, textAt_cons_iff, ih, List.length_cons, and_assoc]
      rw [show o + 1 + units.length = o + (units.length + 1) by omega]

/-- The units depend only on the memory they are in. -/
theorem TextAt.congr (h : TextAt mem o units)
    (hsame : ∀ i, o ≤ i → i < o + units.length → mem' i = mem i) : TextAt mem' o units :=
  fun i hi => (hsame _ (by omega) (by omega)).trans (h i hi)

end TextAt

/-- A memory that holds the units. -/
theorem textAt_getD (units : List UInt16) : TextAt (units.getD · 0) 0 units := by
  intro i hi
  rw [Nat.zero_add]
  exact List.getD_eq_getElem _ _ hi

theorem hexDigit_spec : ∀ d < 16, hexDigit d ≠ 0x0a ∧ hexDigit d ≠ 0x20 ∧ hexDigit d ≠ 0x09 ∧
    hexDigit d > 0x23 ∧ hexDigit d ≠ 0 ∧ hexDigit d ≠ 0x23 ∧
      (hexDigit d).toUInt32 - (if hexDigit d < 0x61 then 0x30 else 0x61 - 10) = UInt32.ofNat d := by
  decide

theorem length_idText (k : ItemKind) (v : Nat) : (idText k v).length + 2 = k.nameOffset := by
  cases k <;> rfl

theorem not_mem_hex8 (v : Nat) : ∀ u ∈ hex8 v, u ≠ 0x0a := by
  intro u hu
  rcases List.mem_cons.mp hu with rfl | hu
  · exact (hexDigit_spec _ (Nat.mod_lt _ (by decide))).1
  · obtain rfl : u = hexDigit (v % 16) := by simpa using hu
    exact (hexDigit_spec _ (Nat.mod_lt _ (by decide))).1

theorem not_mem_hex16 (v : Nat) : ∀ u ∈ hex16 v, u ≠ 0x0a := by
  intro u hu
  rcases List.mem_append.mp hu with hu | hu
  · exact not_mem_hex8 _ u hu
  · exact not_mem_hex8 _ u hu

theorem not_mem_idText (k : ItemKind) (v : Nat) : ∀ u ∈ idText k v, u ≠ 0x0a := by
  have htab : ∀ u ∈ ([0x09] : List UInt16), u ≠ 0x0a := by simp
  have htabs : ∀ u ∈ ([0x09, 0x09] : List UInt16), u ≠ 0x0a := by simp
  have hspace : ∀ u ∈ ([0x20] : List UInt16), u ≠ 0x0a := by simp
  have hclass : ∀ u ∈ ([0x43, 0x20] : List UInt16), u ≠ 0x0a := by simp
  intro u hu
  cases k with
  | subsystem =>
      simp only [idText, List.mem_append] at hu
      rcases hu with ((hu | hu) | hu) | hu
      · exact htabs u hu
      · exact not_mem_hex16 _ u hu
      · exact hspace u hu
      · exact not_mem_hex16 _ u hu
  | device => exact (List.mem_append.mp hu).elim (htab u) (not_mem_hex16 _ u)
  | vendor => exact not_mem_hex16 _ u hu
  | progif => exact (List.mem_append.mp hu).elim (htabs u) (not_mem_hex8 _ u)
  | subclass => exact (List.mem_append.mp hu).elim (htab u) (not_mem_hex8 _ u)
  | baseClass => exact (List.mem_append.mp hu).elim (hclass u) (not_mem_hex8 _ u)

/-- The only line feed of a line is the one at its end. -/
theorem Line.Valid.not_mem {line : Line} (h : line.Valid) : ∀ u ∈ line.units, u ≠ 0x0a := by
  intro u hu
  cases line with
  | blank => cases hu
  | comment text =>
      rcases List.mem_cons.mp hu with rfl | hu
      · decide
      · exact h.comment text rfl u hu
  | item i =>
      simp only [Line.units, IdLine.units, List.mem_append] at hu
      rcases hu with (hu | hu) | hu
      · exact not_mem_idText _ _ u hu
      · obtain rfl : u = 0x20 := by simpa using hu
        decide
      · exact ((h.item i rfl).name u hu).2

/-! ## A text -/

theorem IdLine.Valid.line {i : IdLine} (h : i.Valid) (hlength : i.units.length < 65535) :
    (Line.item i).Valid where
  length := hlength
  comment _ hline := by cases hline
  item _ hline := by
    obtain rfl := Line.item.inj hline
    exact h

/-- A vendor with a device and two subsystems. -/
def smallVendor : IdTree :=
  ⟨0x106b, [0x41],
    [⟨0x15, [0x42], [⟨0x106b1234, [0x47], []⟩, ⟨0x80861234, [0x43, 0x22], []⟩]⟩]⟩

/-- A class with a subclass and its programming interface. -/
def smallClass : IdTree := ⟨0x06, [0x44], [⟨0x04, [0x45], [⟨0x01, [0x46], []⟩]⟩]⟩

/-- A text with a byte order mark, a comment, a blank line and a tree of each sort. -/
def smallText : IdsText where
  bom := true
  lines := [.comment [0x21], .item ⟨.vendor, 0x106b, [0x41]⟩, .item ⟨.device, 0x15, [0x42]⟩,
    .item ⟨.subsystem, 0x106b1234, [0x47]⟩, .item ⟨.subsystem, 0x80861234, [0x43, 0x22]⟩, .blank,
    .item ⟨.baseClass, 0x06, [0x44]⟩, .item ⟨.subclass, 0x04, [0x45]⟩,
    .item ⟨.progif, 0x01, [0x46]⟩]
  entries := [.vendor smallVendor, .baseClass smallClass]
  valid := by
    have hitem : ∀ i ∈ (Entry.vendor smallVendor).lines ++ (Entry.baseClass smallClass).lines,
        (Line.item i).Valid := by
      intro i hi
      refine IdLine.Valid.line ?_ ?_
      · revert i
        decide
      · revert i
        decide
    intro line hline
    simp only [List.mem_cons, List.not_mem_nil, or_false] at hline
    rcases hline with rfl | rfl | rfl | rfl | rfl | rfl | rfl | rfl | rfl
    · refine ⟨by decide, fun text htext => ?_, fun i hi => by cases hi⟩
      obtain rfl := Line.comment.inj htext
      simp
    · exact hitem _ (by decide)
    · exact hitem _ (by decide)
    · exact hitem _ (by decide)
    · exact hitem _ (by decide)
    · exact ⟨by decide, fun _ htext => (nomatch htext), fun _ hi => (nomatch hi)⟩
    · exact hitem _ (by decide)
    · exact hitem _ (by decide)
    · exact hitem _ (by decide)
  items := rfl

end PciIds
end EfiApps
