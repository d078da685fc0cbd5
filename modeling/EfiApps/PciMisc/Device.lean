import Mathlib.Data.Finset.Basic
import Mathlib.Logic.Function.Basic
import EfiApps.Lib.Linked

/-!
# The `PCI_IO_DEVICE` record

Every function of `PciMisc` works on records of this type, reached through
pointers.  An address is a natural number, a pointer is an optional address, and
the heap gives the record at each address.  The host bridge is the record the
caller of `GetPciDevices` owns; it has an address of its own.

`PciType1` is a second pointer to the record's own `Pci` header, set exactly
when the header is a bridge header, so it is kept as a Boolean.
-/

namespace EfiApps
namespace PciMisc

/-- An `EFI_STATUS`: the high bit of the code tells errors from warnings. -/
inductive EfiStatus
  | success
  | warning (code : Nat)
  | error (code : Nat)
  deriving DecidableEq, Repr

namespace EfiStatus

/-- `EFI_ERROR (Status)`. -/
def isError : EfiStatus → Bool
  | error _ => true
  | _ => false

/-- `EFI_INVALID_PARAMETER`. -/
def invalidParameter : EfiStatus := error 2

/-- `EFI_UNSUPPORTED`. -/
def unsupported : EfiStatus := error 3

/-- `EFI_OUT_OF_RESOURCES`. -/
def outOfResources : EfiStatus := error 9

/-- `EFI_NOT_FOUND`. -/
def notFound : EfiStatus := error 14

@[simp] theorem isError_success : success.isError = false := rfl

@[simp] theorem isError_outOfResources : outOfResources.isError = true := rfl

end EfiStatus

/-- An `EFI_PCI_ROOT_BRIDGE_IO_PROTOCOL` interface: which one it is, and the
segment number it publishes. -/
structure RootBridgeIo where
  handle : Nat
  segmentNumber : Nat
  deriving DecidableEq, Repr

/-- The fields of the 64-byte configuration header (`Pci`) that the code reads:
those of `Hdr`, of the type 0 `Device` part and of the type 1 `Bridge` part. -/
structure PciHeader where
  vendorId : UInt16 := 0
  deviceId : UInt16 := 0
  command : UInt16 := 0
  status : UInt16 := 0
  classCode0 : UInt8 := 0
  classCode1 : UInt8 := 0
  classCode2 : UInt8 := 0
  headerType : UInt8 := 0
  subsystemVendorID : UInt16 := 0
  subsystemID : UInt16 := 0
  primaryBus : UInt8 := 0
  secondaryBus : UInt8 := 0
  subordinateBus : UInt8 := 0
  deriving DecidableEq, Repr, Inhabited

namespace PciHeader

/-- `HEADER_LAYOUT_CODE`: the header type without the multi-function bit. -/
def layout (hdr : PciHeader) : UInt8 := hdr.headerType &&& 0x7f

/-- `IS_PCI_BRIDGE`. -/
def isPciBridge (hdr : PciHeader) : Bool := hdr.layout == 1

/-- `IS_CARDBUS_BRIDGE`. -/
def isCardbusBridge (hdr : PciHeader) : Bool := hdr.layout == 2

/-- `IS_PCI_MULTI_FUNC`. -/
def isPciMultiFunc (hdr : PciHeader) : Bool := hdr.headerType &&& 0x80 != 0

end PciHeader

/-- The registers of the PCI Express capability that the code uses
(`PCI_CAPABILITY_PCIEXP`). -/
structure PciExpressCap where
  capability : UInt16 := 0
  linkCapability : UInt32 := 0
  linkControl : UInt16 := 0
  linkStatus : UInt16 := 0
  linkControl2 : UInt16 := 0
  deriving DecidableEq, Repr, Inhabited

/-- The address of a `PCI_IO_DEVICE` record. -/
abbrev Addr := Nat

/-- `PCI_IO_DEVICE`. -/
structure PciIoDevice where
  pciIo : Option Nat := none
  pciRootBridgeIo : Option RootBridgeIo := none
  pci : PciHeader := {}
  pciType1 : Bool := false
  pciDeviceID : Nat := 0
  segmentNumber : Nat := 0
  busNumber : UInt8 := 0
  deviceNumber : UInt8 := 0
  functionNumber : UInt8 := 0
  chain : Option Addr := none
  /-- The record whose `Chain` field `LastBridge` points to. -/
  lastBridge : Addr := 0
  nextPciDeviceID : Nat := 0
  segmentDevice : Option Addr := none
  isSegment : Bool := false
  parent : Option Addr := none
  firstChild : Option Addr := none
  lastChild : Option Addr := none
  nextSibling : Option Addr := none
  usedBuses : Vector UInt32 8 := Vector.replicate 8 0
  bigUnusedStart : UInt8 := 0
  bigUnusedEnd : UInt8 := 0
  savePciIo : Option Nat := none
  saveBusNumber : UInt8 := 0
  savePrimaryBus : UInt8 := 0
  saveSecondaryBus : UInt8 := 0
  saveSubordinateBus : UInt8 := 0
  newBusNumber : UInt8 := 0
  newPrimaryBus : UInt8 := 0
  newSecondaryBus : UInt8 := 0
  newSubordinateBus : UInt8 := 0
  isPciExp : Bool := false
  pciExpressCapabilityOffset : UInt8 := 0
  pciExpressCap : PciExpressCap := {}
  deriving DecidableEq, Repr, Inhabited

namespace PciIoDevice

/-! Stores to the link fields. -/

def setChain (p : Option Addr) (d : PciIoDevice) : PciIoDevice := { d with chain := p }

def setLastBridge (a : Addr) (d : PciIoDevice) : PciIoDevice := { d with lastBridge := a }

def setNextPciDeviceID (id : Nat) (d : PciIoDevice) : PciIoDevice :=
  { d with nextPciDeviceID := id }

def setParent (p : Option Addr) (d : PciIoDevice) : PciIoDevice := { d with parent := p }

def setFirstChild (p : Option Addr) (d : PciIoDevice) : PciIoDevice := { d with firstChild := p }

def setLastChild (p : Option Addr) (d : PciIoDevice) : PciIoDevice := { d with lastChild := p }

def setNextSibling (p : Option Addr) (d : PciIoDevice) : PciIoDevice :=
  { d with nextSibling := p }

/-- The record without its links to other records. -/
def eraseLinks (d : PciIoDevice) : PciIoDevice :=
  { d with
    chain := none
    lastBridge := 0
    nextPciDeviceID := 0
    parent := none
    firstChild := none
    lastChild := none
    nextSibling := none }

variable (d : PciIoDevice) (p : Option Addr) (a : Addr)

@[simp] theorem eraseLinks_setChain : (d.setChain p).eraseLinks = d.eraseLinks := rfl
@[simp] theorem eraseLinks_setLastBridge : (d.setLastBridge a).eraseLinks = d.eraseLinks := rfl
@[simp] theorem eraseLinks_setNextPciDeviceID (id : Nat) :
    (d.setNextPciDeviceID id).eraseLinks = d.eraseLinks := rfl
@[simp] theorem eraseLinks_setParent : (d.setParent p).eraseLinks = d.eraseLinks := rfl
@[simp] theorem eraseLinks_setFirstChild : (d.setFirstChild p).eraseLinks = d.eraseLinks := rfl
@[simp] theorem eraseLinks_setLastChild : (d.setLastChild p).eraseLinks = d.eraseLinks := rfl
@[simp] theorem eraseLinks_setNextSibling : (d.setNextSibling p).eraseLinks = d.eraseLinks := rfl

@[simp] theorem chain_setChain : (d.setChain p).chain = p := rfl
@[simp] theorem chain_setLastBridge : (d.setLastBridge a).chain = d.chain := rfl
@[simp] theorem lastBridge_setLastBridge : (d.setLastBridge a).lastBridge = a := rfl
@[simp] theorem parent_setNextPciDeviceID (id : Nat) :
    (d.setNextPciDeviceID id).parent = d.parent := rfl
@[simp] theorem parent_setParent : (d.setParent p).parent = p := rfl
@[simp] theorem parent_setFirstChild : (d.setFirstChild p).parent = d.parent := rfl
@[simp] theorem parent_setLastChild : (d.setLastChild p).parent = d.parent := rfl
@[simp] theorem parent_setNextSibling : (d.setNextSibling p).parent = d.parent := rfl
@[simp] theorem firstChild_setParent : (d.setParent p).firstChild = d.firstChild := rfl
@[simp] theorem firstChild_setFirstChild : (d.setFirstChild p).firstChild = p := rfl
@[simp] theorem firstChild_setLastChild : (d.setLastChild p).firstChild = d.firstChild := rfl
@[simp] theorem firstChild_setNextSibling : (d.setNextSibling p).firstChild = d.firstChild := rfl
@[simp] theorem lastChild_setParent : (d.setParent p).lastChild = d.lastChild := rfl
@[simp] theorem lastChild_setFirstChild : (d.setFirstChild p).lastChild = d.lastChild := rfl
@[simp] theorem lastChild_setLastChild : (d.setLastChild p).lastChild = p := rfl
@[simp] theorem lastChild_setNextSibling : (d.setNextSibling p).lastChild = d.lastChild := rfl
@[simp] theorem nextSibling_setParent : (d.setParent p).nextSibling = d.nextSibling := rfl
@[simp] theorem nextSibling_setFirstChild : (d.setFirstChild p).nextSibling = d.nextSibling := rfl
@[simp] theorem nextSibling_setLastChild : (d.setLastChild p).nextSibling = d.nextSibling := rfl
@[simp] theorem nextSibling_setNextSibling : (d.setNextSibling p).nextSibling = p := rfl

end PciIoDevice

/-- `PCI_MAX_BUS`. -/
def pciMaxBus : UInt8 := 255

/-- The records the program has, by address. -/
abbrev Heap := Addr → PciIoDevice

/-- The record the caller of `GetPciDevices` passes in. -/
def hostBridge : Addr := 0

/-- Change the record at one address. -/
def Heap.modify (heap : Heap) (a : Addr) (f : PciIoDevice → PciIoDevice) : Heap :=
  Function.update heap a (f (heap a))

@[simp] theorem Heap.modify_self (heap : Heap) (a : Addr) (f : PciIoDevice → PciIoDevice) :
    heap.modify a f a = f (heap a) := by
  simp [Heap.modify]

theorem Heap.modify_of_ne (heap : Heap) {a b : Addr} (f : PciIoDevice → PciIoDevice)
    (h : b ≠ a) : heap.modify a f b = heap b := by
  simp [Heap.modify, h]

theorem Heap.modify_apply (heap : Heap) (a b : Addr) (f : PciIoDevice → PciIoDevice) :
    heap.modify a f b = if b = a then f (heap b) else heap b := by
  by_cases h : b = a
  · subst h
    simp
  · simp [Heap.modify_of_ne _ _ h, h]

/-- A field that the change leaves alone reads the same at every address. -/
theorem Heap.modify_field {β : Type _} (field : PciIoDevice → β) (heap : Heap) (a b : Addr)
    {f : PciIoDevice → PciIoDevice} (h : ∀ d, field (f d) = field d) :
    field (heap.modify a f b) = field (heap b) := by
  rw [Heap.modify_apply]
  split
  · exact h _
  · rfl

end PciMisc
end EfiApps
