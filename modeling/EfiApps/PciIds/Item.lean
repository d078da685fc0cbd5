import Mathlib.Algebra.Group.Nat.Defs
import Mathlib.Logic.Function.Basic

/-!
# Items of the table of names

A `PciIdItem` holds an ID, a pointer to a name and a contiguous array of child
items.  Pointers go to a block and an offset in it, so that an item can be told
to refer to a block that is no longer allocated.

`IdNode` is an item as a value, with the items below it; `DescribesChildren` says
that an item and the memory it points to hold a list of such values.
-/

namespace EfiApps
namespace PciIds

/-- A pointer into a block. -/
structure Ptr where
  block : Nat
  offset : Nat
  deriving DecidableEq, Repr

/-- `PciIdItem`. -/
structure PciIdItem where
  value : UInt64 := 0
  name : Option Ptr := none
  numChildren : Nat := 0
  children : Option Ptr := none
  deriving DecidableEq, Repr

/-- The contents of the blocks that hold text. -/
abbrev TextMemory := Nat → Nat → UInt16

/-- The contents of the blocks that hold records. -/
abbrev ItemMemory := Nat → Nat → PciIdItem

/-- An ID with its name and what is below it. -/
structure IdNode (β : Type) where
  value : UInt64
  name : List UInt16
  children : List β
  deriving DecidableEq, Repr

/-- The subsystems of a device, or the programming interfaces of a subclass. -/
abbrev IdLeaf := IdNode Empty

/-- The devices of a vendor, or the subclasses of a class. -/
abbrev IdBranch := IdNode IdLeaf

/-- The vendors or the classes. -/
abbrev IdTree := IdNode IdBranch

/-- The units from an address on are those of the list. -/
def TextAt (mem : Nat → UInt16) (o : Nat) (units : List UInt16) : Prop :=
  ∀ i (h : i < units.length), mem (o + i) = units[i]

/-- The pointer is to a NUL-terminated string. -/
def IsString (text : TextMemory) (p : Option Ptr) (units : List UInt16) : Prop :=
  ∃ ptr, p = some ptr ∧ TextAt (text ptr.block) ptr.offset (units ++ [0])

/-- The array of children of an item holds a list: no array for the empty list, and
otherwise one record after the other. -/
def DescribesChildren {β : Type} (describes : PciIdItem → β → Prop) (items : ItemMemory)
    (item : PciIdItem) (nodes : List β) : Prop :=
  item.numChildren = nodes.length ∧
    ((nodes = [] ∧ item.children = none) ∨
      ∃ first, item.children = some first ∧ ∀ i (h : i < nodes.length),
        describes (items first.block (first.offset + i)) nodes[i])

/-- An item holds a node, if `describes` says when one holds a child. -/
def Describes {β : Type} (describes : PciIdItem → β → Prop) (text : TextMemory)
    (items : ItemMemory) (item : PciIdItem) (node : IdNode β) : Prop :=
  item.value = node.value ∧ IsString text item.name node.name ∧
    DescribesChildren describes items item node.children

section describes

variable (text : TextMemory) (items : ItemMemory)

/-- The item is a subsystem or programming interface. -/
def DescribesLeaf : PciIdItem → IdLeaf → Prop :=
  Describes (fun _ (node : Empty) => node.elim) text items

/-- The item is a device or subclass. -/
def DescribesBranch : PciIdItem → IdBranch → Prop :=
  Describes (DescribesLeaf text items) text items

/-- The item is a vendor or class. -/
def DescribesTree : PciIdItem → IdTree → Prop :=
  Describes (DescribesBranch text items) text items

/-- The item is the root of the trees. -/
def DescribesForest : PciIdItem → List IdTree → Prop :=
  DescribesChildren (DescribesTree text items) items

end describes

end PciIds
end EfiApps
