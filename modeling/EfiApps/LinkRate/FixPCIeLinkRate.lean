import EfiApps.PciMisc.Config
import EfiApps.PciMisc.TreeIterate
import Mathlib.Logic.Relation

/-!
# `FixPCIeLinkRate`

The callback of the application retrains the link between a port and its first
child when both report a link speed below their maximum.  It carries one pointer
from callback to callback: the port it has just left, if the link below it may
have to be retrained.

A link control register holds what was last written to it; what the link status
register answers, and which accesses fail, is up to the hardware.  A failed read
may leave anything in the buffer, and a failed write may or may not have reached
the register.
-/

namespace EfiApps
namespace LinkRate

open PciMisc Relation

/-- The registers of the capability that `SetMaxLinkSpeed` accesses. -/
inductive LinkRegister
  | linkControl
  | linkStatus
  | linkControl2
  deriving DecidableEq, Repr

/-- `OFFSET_OF (PCI_CAPABILITY_PCIEXP, r)`. -/
def LinkRegister.offset : LinkRegister → Nat
  | linkControl => 0x10
  | linkStatus => 0x12
  | linkControl2 => 0x30

/-- The copy of a register in a record. -/
def linkCopy (d : PciIoDevice) : LinkRegister → UInt16
  | .linkControl => d.pciExpressCap.linkControl
  | .linkStatus => d.pciExpressCap.linkStatus
  | .linkControl2 => d.pciExpressCap.linkControl2

/-- Store to the copy of a register. -/
def setLinkCopy (r : LinkRegister) (value : UInt16) (d : PciIoDevice) : PciIoDevice :=
  match r with
  | .linkControl => { d with pciExpressCap := { d.pciExpressCap with linkControl := value } }
  | .linkStatus => { d with pciExpressCap := { d.pciExpressCap with linkStatus := value } }
  | .linkControl2 => { d with pciExpressCap := { d.pciExpressCap with linkControl2 := value } }

/-- `LinkCapability.Bits.MaxLinkSpeed`. -/
def maxLinkSpeed (d : PciIoDevice) : Nat := (d.pciExpressCap.linkCapability &&& 0xf).toNat

/-- `LinkStatus.Bits.CurrentLinkSpeed`. -/
def currentLinkSpeed (d : PciIoDevice) : Nat := (d.pciExpressCap.linkStatus &&& 0xf).toNat

/-- `Capability.Bits.DevicePortType`. -/
def devicePortType (d : PciIoDevice) : UInt16 := d.pciExpressCap.capability >>> 4 &&& 0xf

/-- `PCIE_DEVICE_PORT_TYPE_ROOT_PORT`. -/
def pcieDevicePortTypeRootPort : UInt16 := 4

/-- `PCIE_DEVICE_PORT_TYPE_DOWNSTREAM_PORT`. -/
def pcieDevicePortTypeDownstreamPort : UInt16 := 6

/-- `LinkStatus.Bits.LinkTraining`. -/
def linkTraining (linkStatus : UInt16) : Bool := linkStatus &&& 0x0800 != 0

/-- Store to `LinkControl2.Bits.TargetLinkSpeed`. -/
def setTargetLinkSpeed (speed : Nat) (linkControl2 : UInt16) : UInt16 :=
  (linkControl2 &&& 0xfff0) ||| (.ofNat speed &&& 0xf)

/-- `LinkControl.Bits.RetrainLink = 1`. -/
def setRetrainLink (linkControl : UInt16) : UInt16 := linkControl ||| 0x0020

/-- The hardware at each access of a run: what a read of the status register
answers, or a failed read leaves in the buffer, and whether a write takes effect
although it fails. -/
structure LinkHardware where
  read : Nat → EfiStatus × UInt16
  write : Nat → EfiStatus × Bool

/-- The contents of the registers. -/
abbrev Registers := ConfigPath × Nat → UInt16

/-- A read or a write of a register, and the status that it returns. -/
structure LinkAccess where
  isWrite : Bool
  device : Addr
  register : LinkRegister
  status : EfiStatus

/-- The records, the registers, the number of accesses so far and `*ParentDevice`,
with a log of the calls of `SetMaxLinkSpeed` and one of the accesses. -/
structure LinkState where
  heap : Heap
  registers : Registers
  time : Nat
  parentDevice : Option Addr
  calls : List (Addr × Addr)
  accesses : List LinkAccess

/-- The access is noted in the log. -/
def LinkState.note (s : LinkState) (x : LinkAccess) : LinkState :=
  { s with accesses := s.accesses ++ [x] }

/-- The writes of the log. -/
def LinkState.writes (s : LinkState) : List (Addr × LinkRegister) :=
  (s.accesses.filter LinkAccess.isWrite).map fun x => (x.device, x.register)

theorem LinkState.writes_note (s : LinkState) (x : LinkAccess) :
    (s.note x).writes = s.writes ++ if x.isWrite then [(x.device, x.register)] else [] := by
  unfold writes note
  cases hwrite : x.isWrite <;> simp [hwrite]

/-- `d->PciExpressCapabilityOffset + OFFSET_OF (PCI_CAPABILITY_PCIEXP, r)`. -/
def linkOffset (d : PciIoDevice) (r : LinkRegister) : Nat :=
  d.pciExpressCapabilityOffset.toNat + r.offset

/-- The macro `Read`. -/
def readLink (hw : LinkHardware) (a : Addr) (r : LinkRegister) (s : LinkState) :
    EfiStatus × LinkState :=
  match (s.heap a).configPath with
  | none => (.invalidParameter, s.note ⟨false, a, r, .invalidParameter⟩)
  | some path =>
      let (status, buffer) := hw.read s.time
      let value :=
        if status.isError ∨ r = .linkStatus then buffer
        else s.registers (path, linkOffset (s.heap a) r)
      let s := s.note ⟨false, a, r, status⟩
      (status, { s with heap := s.heap.modify a (setLinkCopy r value), time := s.time + 1 })

/-- The macro `Write`. -/
def writeLink (hw : LinkHardware) (a : Addr) (r : LinkRegister) (s : LinkState) :
    EfiStatus × LinkState :=
  match (s.heap a).configPath with
  | none => (.invalidParameter, s.note ⟨true, a, r, .invalidParameter⟩)
  | some path =>
      let (status, takesEffect) := hw.write s.time
      let registers :=
        if status.isError = true ∧ takesEffect = false then s.registers
        else Function.update s.registers (path, linkOffset (s.heap a) r) (linkCopy (s.heap a) r)
      let s := s.note ⟨true, a, r, status⟩
      (status, { s with registers := registers, time := s.time + 1 })

/-- The macro `Modify`: a status that is an error stands for its `break`. -/
def modifyLink (hw : LinkHardware) (a : Addr) (r : LinkRegister) (f : UInt16 → UInt16)
    (s : LinkState) : EfiStatus × LinkState :=
  let (status, s) := readLink hw a r s
  if status.isError then (status, s)
  else
    writeLink hw a r
      { s with heap := s.heap.modify a (setLinkCopy r (f (linkCopy (s.heap a) r))) }

/-- `do { Read (LinkStatus) } while (LinkTraining)`.  The `break` in `Read` leaves
this loop. -/
def pollLinkTraining (hw : LinkHardware) (a : Addr) : Nat → LinkState → Run LinkState
  | fuel, s =>
      let (status, s) := readLink hw a .linkStatus s
      if status.isError then .ok s
      else if linkTraining (linkCopy (s.heap a) .linkStatus) then
        match fuel with
        | 0 => .error .outOfFuel
        | fuel + 1 => pollLinkTraining hw a fuel s
      else .ok s

/-- `TargetLinkSpeedValue`. -/
def targetLinkSpeedValue (d child : PciIoDevice) : Nat :=
  if maxLinkSpeed child > maxLinkSpeed d then maxLinkSpeed d else maxLinkSpeed child

/-- `SetMaxLinkSpeed`. -/
def setMaxLinkSpeed (hw : LinkHardware) (fuel : Nat) (p c : Addr) (s : LinkState) :
    Run LinkState :=
  let value := targetLinkSpeedValue (s.heap p) (s.heap c)
  let (status, s) := modifyLink hw p .linkControl2 (setTargetLinkSpeed value) s
  if status.isError then .ok s
  else do
    let s ← pollLinkTraining hw p fuel s
    let (status, s) := modifyLink hw p .linkControl setRetrainLink s
    if status.isError then .ok s
    else do
      let s ← pollLinkTraining hw p fuel s
      .ok (readLink hw c .linkStatus s).2

/-- `IsPciExp` and `CurrentLinkSpeed < MaxLinkSpeed`. -/
def belowMaxLinkSpeed (d : PciIoDevice) : Bool :=
  d.isPciExp && decide (currentLinkSpeed d < maxLinkSpeed d)

/-- The device is a root port or a downstream port. -/
def isDownstreamFacing (d : PciIoDevice) : Bool :=
  devicePortType d = pcieDevicePortTypeRootPort ||
    devicePortType d = pcieDevicePortTypeDownstreamPort

/-- The part of the callback that may call `SetMaxLinkSpeed`. -/
def retrainBelow (hw : LinkHardware) (fuel : Nat) (a : Addr) (s : LinkState) : Run LinkState :=
  match s.parentDevice with
  | none => .ok s
  | some p =>
      if belowMaxLinkSpeed (s.heap a) then
        setMaxLinkSpeed hw fuel p a { s with calls := s.calls ++ [(p, a)] }
      else .ok s

/-- The next `*ParentDevice`. -/
def nextParentDevice (d : PciIoDevice) (a : Addr) : Option Addr :=
  if d.firstChild.isSome && belowMaxLinkSpeed d && isDownstreamFacing d then some a else none

/-- `FixPCIeLinkRate`. -/
def fixPCIeLinkRate (hw : LinkHardware) (fuel : Nat) (a : Addr) (s : LinkState) : Run LinkState :=
  if (s.heap a).isSegment then .ok { s with parentDevice := none }
  else do
    let s ← retrainBelow hw fuel a s
    .ok { s with parentDevice := nextParentDevice (s.heap a) a }

/-! ## The two fields -/

theorem getLsbD_masks (i : Nat) :
    (0xfff0 : UInt16).toBitVec.getLsbD i = (decide (4 ≤ i) && decide (i < 16)) ∧
      (0xf : UInt16).toBitVec.getLsbD i = decide (i < 4) ∧
      (0x20 : UInt16).toBitVec.getLsbD i = decide (i = 5) := by
  by_cases hi : i < 16
  · revert i
    decide
  · rw [BitVec.getLsbD_of_ge _ i (by omega), BitVec.getLsbD_of_ge _ i (by omega),
      BitVec.getLsbD_of_ge _ i (by omega)]
    simp
    omega

theorem bit_setTargetLinkSpeed (speed : Nat) (v : UInt16) (i : Nat) :
    (setTargetLinkSpeed speed v).toBitVec.getLsbD i =
      if i < 4 then speed.testBit i else v.toBitVec.getLsbD i := by
  obtain ⟨hkept, hset, -⟩ := getLsbD_masks i
  rw [setTargetLinkSpeed, UInt16.toBitVec_or, UInt16.toBitVec_and, UInt16.toBitVec_and,
    BitVec.getLsbD_or, BitVec.getLsbD_and, BitVec.getLsbD_and, hkept, hset]
  split
  · rename_i hi
    have hofNat : (UInt16.ofNat speed).toBitVec.getLsbD i = speed.testBit i := by
      rw [UInt16.toBitVec_ofNat', BitVec.getLsbD_ofNat, decide_eq_true (by omega), Bool.true_and]
    simp [hi, hofNat]
  · rename_i hi
    by_cases hwide : i < 16
    · simp [hi, hwide, Nat.le_of_not_lt hi]
    · simp [hwide, hi, BitVec.getLsbD_of_ge v.toBitVec i (by omega)]

theorem bit_setRetrainLink (v : UInt16) (i : Nat) :
    (setRetrainLink v).toBitVec.getLsbD i = (v.toBitVec.getLsbD i || decide (i = 5)) := by
  rw [setRetrainLink, UInt16.toBitVec_or, BitVec.getLsbD_or, (getLsbD_masks i).2.2]

/-! ## What the callback leaves alone -/

/-- The record without the copies of the link registers. -/
def eraseLinkCopies (d : PciIoDevice) : PciIoDevice :=
  { d with
    pciExpressCap :=
      { d.pciExpressCap with linkControl := 0, linkStatus := 0, linkControl2 := 0 } }

@[simp] theorem eraseLinkCopies_setLinkCopy (r : LinkRegister) (value : UInt16)
    (d : PciIoDevice) : eraseLinkCopies (setLinkCopy r value d) = eraseLinkCopies d := by
  cases r <;> rfl

@[simp] theorem linkCopy_setLinkCopy (r : LinkRegister) (value : UInt16) (d : PciIoDevice) :
    linkCopy (setLinkCopy r value d) r = value := by
  cases r <;> rfl

/-- Two heaps agree on everything but the copies of the link registers. -/
def SameButLinkCopies (heap heap' : Heap) : Prop :=
  ∀ a, eraseLinkCopies (heap' a) = eraseLinkCopies (heap a)

namespace SameButLinkCopies

variable {heap heap' heap'' : Heap}

theorem refl (heap : Heap) : SameButLinkCopies heap heap := fun _ => rfl

theorem trans (h : SameButLinkCopies heap heap') (h' : SameButLinkCopies heap' heap'') :
    SameButLinkCopies heap heap'' :=
  fun a => (h' a).trans (h a)

theorem modify (h : SameButLinkCopies heap heap') (a : Addr) (r : LinkRegister)
    (value : UInt16) : SameButLinkCopies heap (heap'.modify a (setLinkCopy r value)) :=
  fun b => (Heap.modify_field _ heap' a b fun d => by simp).trans (h b)

/-- A field that is no copy of a link register. -/
theorem field {β : Type _} {f : PciIoDevice → β} (h : SameButLinkCopies heap heap')
    (hf : ∀ d, f (eraseLinkCopies d) = f d) (a : Addr) : f (heap' a) = f (heap a) := by
  rw [← hf, h a, hf]

theorem sameTree (h : SameButLinkCopies heap heap') : SameTree heap heap' where
  parent := h.field fun _ => rfl
  firstChild := h.field fun _ => rfl
  lastChild := h.field fun _ => rfl
  nextSibling := h.field fun _ => rfl
  isSegment := h.field fun _ => rfl

theorem isSegment (h : SameButLinkCopies heap heap') (a : Addr) :
    (heap' a).isSegment = (heap a).isSegment := h.field (fun _ => rfl) a

theorem configPath (h : SameButLinkCopies heap heap') (a : Addr) :
    (heap' a).configPath = (heap a).configPath := h.field (fun _ => rfl) a

theorem linkOffset (h : SameButLinkCopies heap heap') (a : Addr) (r : LinkRegister) :
    linkOffset (heap' a) r = linkOffset (heap a) r :=
  h.field (f := fun d => LinkRate.linkOffset d r) (fun _ => rfl) a

theorem maxLinkSpeed (h : SameButLinkCopies heap heap') (a : Addr) :
    maxLinkSpeed (heap' a) = maxLinkSpeed (heap a) := h.field (fun _ => rfl) a

end SameButLinkCopies

/-- The two register writes of `SetMaxLinkSpeed (p, c)`. -/
inductive LinkWrite (heap : Heap) (p c : Addr) : Registers → Registers → Prop
  | target {path : ConfigPath} (hpath : (heap p).configPath = some path) (registers : Registers) :
      LinkWrite heap p c registers
        (Function.update registers (path, linkOffset (heap p) .linkControl2)
          (setTargetLinkSpeed (min (maxLinkSpeed (heap p)) (maxLinkSpeed (heap c)))
            (registers (path, linkOffset (heap p) .linkControl2))))
  | retrain {path : ConfigPath} (hpath : (heap p).configPath = some path)
      (registers : Registers) :
      LinkWrite heap p c registers
        (Function.update registers (path, linkOffset (heap p) .linkControl)
          (setRetrainLink (registers (path, linkOffset (heap p) .linkControl))))

/-- The writes are the same for every value of the copies. -/
theorem LinkWrite.congr {heap heap' : Heap} {p c : Addr} {registers registers' : Registers}
    (h : LinkWrite heap' p c registers registers') (hsame : SameButLinkCopies heap heap') :
    LinkWrite heap p c registers registers' := by
  cases h with
  | target hpath =>
      rw [hsame.linkOffset, hsame.maxLinkSpeed, hsame.maxLinkSpeed]
      exact .target ((hsame.configPath p).symm.trans hpath) _
  | retrain hpath =>
      rw [hsame.linkOffset]
      exact .retrain ((hsame.configPath p).symm.trans hpath) _

/-- A bit of a register that the call of `SetMaxLinkSpeed` may change. -/
def CallBit (heap : Heap) (p : Addr) (location : ConfigPath × Nat) (i : Nat) : Prop :=
  ∃ path, (heap p).configPath = some path ∧
    (location = (path, linkOffset (heap p) .linkControl2) ∧ i < 4 ∨
      location = (path, linkOffset (heap p) .linkControl) ∧ i = 5)

/-- Each of the two writes changes the bits of its field alone. -/
theorem LinkWrite.callBit {heap : Heap} {p c : Addr} {registers registers' : Registers}
    (h : LinkWrite heap p c registers registers') {location : ConfigPath × Nat} {i : Nat}
    (hchanged : (registers' location).toBitVec.getLsbD i ≠ (registers location).toBitVec.getLsbD i) :
    CallBit heap p location i := by
  cases h with
  | @target path hpath =>
      refine ⟨path, hpath, .inl ?_⟩
      by_cases hlocation : location = (path, linkOffset (heap p) .linkControl2)
      · subst hlocation
        rw [Function.update_self, bit_setTargetLinkSpeed] at hchanged
        refine ⟨rfl, ?_⟩
        by_contra hi
        exact hchanged (if_neg hi)
      · exact absurd (by rw [Function.update_of_ne hlocation]) hchanged
  | @retrain path hpath =>
      refine ⟨path, hpath, .inr ?_⟩
      by_cases hlocation : location = (path, linkOffset (heap p) .linkControl)
      · subst hlocation
        rw [Function.update_self, bit_setRetrainLink] at hchanged
        refine ⟨rfl, ?_⟩
        by_contra hi
        simp [hi] at hchanged
      · exact absurd (by rw [Function.update_of_ne hlocation]) hchanged

end LinkRate
end EfiApps
