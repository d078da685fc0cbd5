import EfiApps.Lib.Forest
import EfiApps.PciMisc.Device

/-!
# `PciTreeIterate`

The traversal follows `FirstChild`, then `NextSibling`, and climbs `Parent` when
a child list ends, until it is back at a root bridge.  With `DoPrint` it first
finds the widest indentation and then prints one line for every segment and
every device, with an indent string that is rewritten in place on the way down.

The callback may change its own state and the records, but not the links between
the records; a `Visitor` carries the proof.  Every loop gets a number of
iterations it may take.
-/

namespace EfiApps
namespace PciMisc

/-! ## Printing -/

/-- `kIndentAncestor`. -/
def kIndentAncestor : UInt64 := 1

/-- `kIndentSelf`. -/
def kIndentSelf : UInt64 := 0

/-- `kPciTreeSibling`: a plus sign. -/
def kPciTreeSibling : List UInt16 := [0x2b]

/-- `kPciTreeUncle`: a vertical bar. -/
def kPciTreeUncle : List UInt16 := [0x7c]

/-- `kPciTreeNoSibling`: a grave accent. -/
def kPciTreeNoSibling : List UInt16 := [0x60]

/-- `kPciTreeNoUncle`: a space. -/
def kPciTreeNoUncle : List UInt16 := [0x20]

/-- `kPciTreeBridge`: a plus sign. -/
def kPciTreeBridge : List UInt16 := [0x2b]

/-- `kPciTreeEndPoint`: a hyphen. -/
def kPciTreeEndPoint : List UInt16 := [0x2d]

/-- `STR_LEN`. -/
def strLen (text : List UInt16) : UInt64 := .ofNat text.length

/-- `IndentStringMaxLen`. -/
def indentStringMaxLen : UInt64 := 200

/-- The greatest `BufferSize` that `UnicodeSPrint` accepts:
`PcdMaximumUnicodeStringLength * sizeof (CHAR16) + 1`. -/
def maxSPrintSize : UInt64 := 2000001

/-- `UnicodeSPrint (&Buffer[offset], size, ...)` with the formatted text: as much
of it as leaves room for the terminator.  A size of zero or above the limit
leaves the buffer alone. -/
def unicodeSPrint (buffer : List UInt16) (offset size : UInt64) (text : List UInt16) :
    List UInt16 :=
  if size < 2 ∨ size > maxSPrintSize then buffer
  else
    let units := text.take (size.toNat / 2 - 1) ++ [0]
    buffer.take offset.toNat ++ units ++ buffer.drop (offset.toNat + units.length)

/-- What the traversal prints: a line for a segment, or the line of
`OutputPciInfo` for a device. -/
inductive Printed
  | segment (segmentNumber : Nat)
  | device (pciIoDevice : PciIoDevice) (indentString : List UInt16) (indentMaxLength : UInt64)

/-- The loop that counts the ancestors of a bridge. -/
def bridgeDepth (fuel : Nat) (heap : Heap) (b : Addr) : Run UInt64 :=
  forEach (fun _ c => (heap c).parent) (fun _ depth => .ok (depth + 1)) fuel (heap b).parent 0

/-- The indentation of a bridge's own line, its bus numbers included. -/
def bridgeIndent (d : PciIoDevice) (depth : UInt64) : UInt64 :=
  (kIndentAncestor + kIndentSelf) * (depth - 1) + strLen kPciTreeBridge - kIndentSelf +
    if d.pci.secondaryBus = d.pci.subordinateBus then 5 else 8

/-- The indentation of the lines of a bridge's children. -/
def childIndent (depth : UInt64) : UInt64 :=
  (kIndentAncestor + kIndentSelf) * depth + strLen kPciTreeEndPoint - kIndentSelf

/-- One bridge of the loop that finds `IndentMaxLength`. -/
def widenIndent (fuel : Nat) (heap : Heap) (b : Addr) (indentMaxLength : UInt64) : Run UInt64 := do
  let depth ← bridgeDepth fuel heap b
  if (heap b).pciType1 = false then .error .nullDereference
  else
    let indentLength := bridgeIndent (heap b) depth
    let indentMaxLength := if indentLength > indentMaxLength then indentLength else indentMaxLength
    if (heap b).firstChild.isSome then
      let indentLength := childIndent depth
      .ok (if indentLength > indentMaxLength then indentLength else indentMaxLength)
    else .ok indentMaxLength

/-- The loop over the list of bridges that finds `IndentMaxLength`. -/
def findIndentMaxLength (fuel : Nat) (heap : Heap) : Run UInt64 :=
  forEach (fun _ b => (heap b).chain) (widenIndent fuel heap) fuel (heap hostBridge).chain 0

/-! ## The traversal -/

/-- The links of the records. -/
def Heap.links (heap : Heap) : Links Addr where
  parent a := (heap a).parent
  firstChild a := (heap a).firstChild
  lastChild a := (heap a).lastChild
  nextSibling a := (heap a).nextSibling

/-- Two heaps hold the same tree. -/
structure SameTree (heap heap' : Heap) : Prop where
  parent : ∀ a, (heap' a).parent = (heap a).parent
  firstChild : ∀ a, (heap' a).firstChild = (heap a).firstChild
  lastChild : ∀ a, (heap' a).lastChild = (heap a).lastChild
  nextSibling : ∀ a, (heap' a).nextSibling = (heap a).nextSibling
  isSegment : ∀ a, (heap' a).isSegment = (heap a).isSegment

theorem SameTree.refl (heap : Heap) : SameTree heap heap := by
  constructor <;> exact fun _ => rfl

theorem SameTree.trans {heap₁ heap₂ heap₃ : Heap} (h : SameTree heap₁ heap₂)
    (h' : SameTree heap₂ heap₃) : SameTree heap₁ heap₃ where
  parent a := (h'.parent a).trans (h.parent a)
  firstChild a := (h'.firstChild a).trans (h.firstChild a)
  lastChild a := (h'.lastChild a).trans (h.lastChild a)
  nextSibling a := (h'.nextSibling a).trans (h.nextSibling a)
  isSegment a := (h'.isSegment a).trans (h.isSegment a)

/-- A callback, the state it works on and the records in that state. -/
structure Visitor (σ : Type _) where
  heap : σ → Heap
  callback : Addr → σ → Run σ
  keepsTree : ∀ {a s s'}, callback a s = .ok s' → SameTree (heap s) (heap s')

/-- The locals of `PciTreeIterate`, the state of the callback and what has been
printed. -/
structure Iteration (σ : Type _) where
  state : σ
  indentString : List UInt16
  indentLength : UInt64
  printed : List Printed

section Iterate

variable {σ : Type _} (v : Visitor σ) (doPrint : Bool) (indentMaxLength : UInt64)

/-- `callback (PciIoDevice, context)`. -/
def Visitor.call (a : Addr) (it : Iteration σ) : Run (Iteration σ) := do
  let state ← v.callback a it.state
  .ok { it with state := state }

/-- What happens at a segment before its callback. -/
def startSegment (d : PciIoDevice) (it : Iteration σ) : Iteration σ :=
  let it := { it with indentString := it.indentString.set 0 0, indentLength := 0 }
  if doPrint then { it with printed := it.printed ++ [.segment d.segmentNumber] } else it

/-- Print the line of a device. -/
def printDevice (d : PciIoDevice) (it : Iteration σ) : Iteration σ :=
  if doPrint then
    let indentString := unicodeSPrint it.indentString it.indentLength
      ((indentStringMaxLen - it.indentLength) * 2)
      ((if d.nextSibling.isSome then kPciTreeSibling else kPciTreeNoSibling) ++
        (if d.pciType1 then kPciTreeBridge else kPciTreeEndPoint))
    { it with
      indentString := indentString
      printed := it.printed ++ [.device d indentString indentMaxLength] }
  else it

/-- Indent the lines of the children of a device. -/
def indent (d : PciIoDevice) (it : Iteration σ) : Iteration σ :=
  if doPrint then
    { it with
      indentString := unicodeSPrint it.indentString it.indentLength
        ((indentStringMaxLen - it.indentLength) * 2)
        ((if d.nextSibling.isSome then kPciTreeUncle else kPciTreeNoUncle) ++ [0x20])
      indentLength := it.indentLength + (kIndentAncestor + kIndentSelf) }
  else it

/-- Go back to the indentation of the parent. -/
def outdent (it : Iteration σ) : Iteration σ :=
  if doPrint then { it with indentLength := it.indentLength - (kIndentAncestor + kIndentSelf) }
  else it

/-- The loop that climbs from the last child of a list: to the root bridge, or
to the sibling of the first ancestor that has one. -/
def climb : Nat → Addr → Iteration σ → Run (Option Addr × Iteration σ)
  | fuel, a, it =>
      match (v.heap it.state a).parent with
      | none => .ok (none, it)
      | some p =>
          -- The last child of a root bridge: the loop over the devices ends there.
          if (v.heap it.state p).isSegment then .ok (some p, it)
          else
            let it := outdent doPrint it
            match (v.heap it.state p).nextSibling with
            | some q => .ok (some q, it)
            | none =>
                match fuel with
                | 0 => .error .outOfFuel
                | fuel + 1 => climb fuel p it

/-- Where the traversal goes after a device. -/
def nextDevice (fuel : Nat) (a : Addr) (it : Iteration σ) : Run (Option Addr × Iteration σ) :=
  match (v.heap it.state a).firstChild with
  | some c => .ok (some c, indent doPrint (v.heap it.state a) it)
  | none =>
      match (v.heap it.state a).nextSibling with
      | some q => .ok (some q, it)
      | none => climb v doPrint fuel a it

/-- The loop over the devices of a segment.  It ends at a child of the host
bridge, which it reaches by climbing. -/
def visitDevices (fuel : Nat) : Nat → Option Addr → Iteration σ → Run (Option Addr × Iteration σ)
  | _, none, it => .ok (none, it)
  | 0, some _, _ => .error .outOfFuel
  | n + 1, some a, it => do
      let it ← v.call a (printDevice doPrint indentMaxLength (v.heap it.state a) it)
      let (next, it) ← nextDevice v doPrint fuel a it
      let d ← Run.deref next
      if (v.heap it.state d).parent = some hostBridge then .ok (some d, it)
      else visitDevices fuel n (some d) it

/-- The loop over the segments. -/
def visitSegments (fuel : Nat) : Nat → Option Addr → Iteration σ → Run (Iteration σ)
  | _, none, it => .ok it
  | 0, some _, _ => .error .outOfFuel
  | n + 1, some a, it => do
      let it ← v.call a (startSegment doPrint (v.heap it.state a) it)
      let (last, it) ← visitDevices v doPrint indentMaxLength fuel fuel
        (v.heap it.state a).firstChild it
      let d ← Run.deref last
      visitSegments fuel n (v.heap it.state d).nextSibling it

/-- The locals before the first segment. -/
def Iteration.start (state : σ) : Iteration σ where
  state := state
  indentString := List.replicate 200 0
  indentLength := 0
  printed := []

/-- `IndentMaxLength`, which stays zero without `DoPrint`. -/
def indentWidth (fuel : Nat) (heap : Heap) : Run UInt64 :=
  if doPrint then findIndentMaxLength fuel heap else .ok 0

/-- `PciTreeIterate`. -/
def pciTreeIterate (fuel : Nat) (state : σ) : Run (Iteration σ) := do
  let indentMaxLength ← indentWidth doPrint fuel (v.heap state)
  visitSegments v doPrint indentMaxLength fuel fuel (v.heap state hostBridge).firstChild
    (.start state)

end Iterate

end PciMisc
end EfiApps
