import EfiApps.PciMisc.Device

/-!
# Configuration space reads

`PciAccess` goes through the function's own `PciIo` handle when it has one, and
otherwise through the root bridge with the bus, device and function numbers of
the record.  What comes back is up to the hardware: a reader answers the `t`-th
read of a run, so the same register may read differently every time.

`FillInPciIoDevice` reads the header, saves the bus numbers and looks for the
PCI Express capability.
-/

namespace EfiApps
namespace PciMisc

/-- How a configuration access reaches its function. -/
inductive ConfigPath
  | pciIo (handle : Nat)
  | rootBridgeIo (io : RootBridgeIo) (bus device function : UInt8)
  deriving DecidableEq, Repr

/-- One read of `count` units of `width` bits from the register `reg`. -/
structure ConfigRead where
  path : ConfigPath
  width : Nat
  reg : Nat
  count : Nat
  deriving DecidableEq, Repr

/-- The hardware's answer to each read of a run: a status, and the units read. -/
abbrev ConfigReader := Nat → ConfigRead → EfiStatus × List UInt32

/-- The path `PciAccess` takes for a record, if it has one. -/
def PciIoDevice.configPath (d : PciIoDevice) : Option ConfigPath :=
  match d.pciIo, d.pciRootBridgeIo with
  | some handle, _ => some (.pciIo handle)
  | none, some io => some (.rootBridgeIo io d.busNumber d.deviceNumber d.functionNumber)
  | none, none => none

/-- `PciAccess` with action `Read`: without a path it fails with
`EFI_INVALID_PARAMETER` and reads nothing. -/
def pciAccessRead (reader : ConfigReader) (t : Nat) (d : PciIoDevice) (width reg count : Nat) :
    EfiStatus × List UInt32 × Nat :=
  match d.configPath with
  | none => (.invalidParameter, [], t)
  | some path =>
      let (status, units) := reader t ⟨path, width, reg, count⟩
      (status, units, t + 1)

/-- `PciRead8`, `PciRead16` and `PciRead32`: the buffer starts as all ones and
keeps that value when the access delivers nothing. -/
def pciRead (reader : ConfigReader) (t : Nat) (d : PciIoDevice) (width reg : Nat) : UInt32 × Nat :=
  let (_, units, t) := pciAccessRead reader t d width reg 1
  (units.headD 0xffffffff, t)

/-- `PCI_CAPBILITY_POINTER_OFFSET`. -/
def pciCapabilityPointerOffset : Nat := 0x34

/-- `EFI_PCI_CARDBUS_BRIDGE_CAPABILITY_PTR`. -/
def pciCardbusBridgeCapabilityPtr : Nat := 0x14

/-- `EFI_PCI_CAPABILITY_ID_PCIEXP`. -/
def pciCapabilityIdPciExp : UInt8 := 0x10

/-- `PciCapabilitySupport`. -/
def pciCapabilitySupport (d : PciIoDevice) : Bool := d.pci.status &&& 0x10 != 0

/-- The loop of `LocateCapabilityRegBlock`: follow the next-pointers of the
capability list until the identifier matches, the pointer leaves the list or a
capability points to itself. -/
def locateCapabilityLoop (reader : ConfigReader) (d : PciIoDevice) (capId : UInt8) :
    Nat → UInt8 → Nat → Run (Option (UInt8 × UInt8) × Nat)
  | fuel, capabilityPtr, t =>
      if capabilityPtr ≥ 0x40 ∧ capabilityPtr &&& 0x03 = 0 then
        match fuel with
        | 0 => .error .outOfFuel
        | fuel + 1 =>
            let (unit, t) := pciRead reader t d 16 capabilityPtr.toNat
            let capabilityEntry := unit.toUInt16
            let next := (capabilityEntry >>> 8).toUInt8
            if capabilityEntry.toUInt8 = capId then
              .ok (some (capabilityPtr, next), t)
            -- Only a capability that leads to itself is noticed; a longer ring is followed.
            else if capabilityPtr = next then
              .ok (none, t)
            else
              locateCapabilityLoop reader d capId fuel next t
      else
        .ok (none, t)

/-- `LocateCapabilityRegBlock`: the offset of the capability and the offset of
the next one. -/
def locateCapabilityRegBlock (reader : ConfigReader) (fuel : Nat) (d : PciIoDevice)
    (capId : UInt8) (offset : UInt8) (t : Nat) :
    Run (EfiStatus × Option (UInt8 × UInt8) × Nat) :=
  if pciCapabilitySupport d = false then
    .ok (.unsupported, none, t)
  else do
    let (capabilityPtr, t) :=
      -- An offset of zero stands for the start of the list.
      if offset ≠ 0 then (offset, t)
      else
        let (unit, t) := pciRead reader t d 8
          (if d.pci.isCardbusBridge then pciCardbusBridgeCapabilityPtr
            else pciCapabilityPointerOffset)
        (unit.toUInt8, t)
    let (found, t) ← locateCapabilityLoop reader d capId fuel capabilityPtr t
    .ok (if found.isSome then .success else .notFound, found, t)

/-- The header fields in the sixteen dwords `FillInPciIoDevice` reads. -/
def PciHeader.ofDwords (dwords : List UInt32) : PciHeader where
  vendorId := (dwords.getD 0 0).toUInt16
  deviceId := (dwords.getD 0 0 >>> 16).toUInt16
  command := (dwords.getD 1 0).toUInt16
  status := (dwords.getD 1 0 >>> 16).toUInt16
  classCode0 := (dwords.getD 2 0 >>> 8).toUInt8
  classCode1 := (dwords.getD 2 0 >>> 16).toUInt8
  classCode2 := (dwords.getD 2 0 >>> 24).toUInt8
  headerType := (dwords.getD 3 0 >>> 16).toUInt8
  subsystemVendorID := (dwords.getD 11 0).toUInt16
  subsystemID := (dwords.getD 11 0 >>> 16).toUInt16
  primaryBus := (dwords.getD 6 0).toUInt8
  secondaryBus := (dwords.getD 6 0 >>> 8).toUInt8
  subordinateBus := (dwords.getD 6 0 >>> 16).toUInt8

/-- The capability registers in the thirty words `FillInPciIoDevice` reads. -/
def PciExpressCap.ofWords (words : List UInt32) : PciExpressCap where
  capability := (words.getD 1 0).toUInt16
  linkCapability := (words.getD 7 0 <<< 16) ||| (words.getD 6 0 &&& 0xffff)
  linkControl := (words.getD 8 0).toUInt16
  linkStatus := (words.getD 9 0).toUInt16
  linkControl2 := (words.getD 24 0).toUInt16

/-- `SaveBus`. -/
def saveBus (b : PciIoDevice) : PciIoDevice :=
  let b := { b with savePciIo := b.pciIo, saveBusNumber := b.busNumber }
  if b.pciType1 then
    { b with
      savePrimaryBus := b.pci.primaryBus
      saveSecondaryBus := b.pci.secondaryBus
      saveSubordinateBus := b.pci.subordinateBus }
  else b

/-- `FillInPciIoDevice`: a failed header read leaves the record as it was; a
failed capability read leaves the function as not PCI Express. -/
def fillInPciIoDevice (reader : ConfigReader) (fuel : Nat) (d : PciIoDevice) (t : Nat) :
    Run (EfiStatus × PciIoDevice × Nat) := do
  let (status, dwords, t) := pciAccessRead reader t d 32 0 16
  if status.isError then
    .ok (status, d, t)
  else
    let d := { d with pci := .ofDwords dwords }
    let d := if d.pci.isPciBridge || d.pci.isCardbusBridge then { d with pciType1 := true } else d
    let d := saveBus d
    let d := { d with pciExpressCapabilityOffset := 0 }
    let (status, found, t) ←
      locateCapabilityRegBlock reader fuel d pciCapabilityIdPciExp d.pciExpressCapabilityOffset t
    match found with
    | some (offset, _) =>
        let d := { d with isPciExp := true, pciExpressCapabilityOffset := offset }
        let (status, words, t) := pciAccessRead reader t d 16 offset.toNat 30
        if status.isError then
          -- Without its registers the function is taken for one of conventional PCI.
          .ok (.success, { d with isPciExp := false }, t)
        else
          .ok (status, { d with pciExpressCap := .ofWords words }, t)
    | none =>
        -- Not found and not supported are no reason to drop the function.
        .ok (if status = .notFound ∨ status = .unsupported then .success else status, d, t)

/-- The fields `FillInPciIoDevice` has no business with: the identity of the
record and its place in the lists. -/
structure PciIoDevice.SameIdentity (d d' : PciIoDevice) : Prop where
  pciIo : d'.pciIo = d.pciIo
  pciRootBridgeIo : d'.pciRootBridgeIo = d.pciRootBridgeIo
  pciDeviceID : d'.pciDeviceID = d.pciDeviceID
  segmentNumber : d'.segmentNumber = d.segmentNumber
  busNumber : d'.busNumber = d.busNumber
  deviceNumber : d'.deviceNumber = d.deviceNumber
  functionNumber : d'.functionNumber = d.functionNumber
  chain : d'.chain = d.chain
  isSegment : d'.isSegment = d.isSegment
  parent : d'.parent = d.parent
  firstChild : d'.firstChild = d.firstChild
  lastChild : d'.lastChild = d.lastChild
  nextSibling : d'.nextSibling = d.nextSibling

/-- What `FillInPciIoDevice` establishes about a record without children. -/
structure PciIoDevice.FilledIn (d d' : PciIoDevice) : Prop extends d.SameIdentity d' where
  savePciIo : d'.savePciIo = d'.pciIo
  saveBusNumber : d'.saveBusNumber = d'.busNumber
  saved : d'.pciType1 = true →
    d'.savePrimaryBus = d'.pci.primaryBus ∧ d'.saveSecondaryBus = d'.pci.secondaryBus ∧
      d'.saveSubordinateBus = d'.pci.subordinateBus

theorem PciIoDevice.SameIdentity.trans {d₁ d₂ d₃ : PciIoDevice}
    (h : d₁.SameIdentity d₂) (h' : d₂.SameIdentity d₃) : d₁.SameIdentity d₃ := by
  constructor
  · exact h'.pciIo.trans h.pciIo
  · exact h'.pciRootBridgeIo.trans h.pciRootBridgeIo
  · exact h'.pciDeviceID.trans h.pciDeviceID
  · exact h'.segmentNumber.trans h.segmentNumber
  · exact h'.busNumber.trans h.busNumber
  · exact h'.deviceNumber.trans h.deviceNumber
  · exact h'.functionNumber.trans h.functionNumber
  · exact h'.chain.trans h.chain
  · exact h'.isSegment.trans h.isSegment
  · exact h'.parent.trans h.parent
  · exact h'.firstChild.trans h.firstChild
  · exact h'.lastChild.trans h.lastChild
  · exact h'.nextSibling.trans h.nextSibling

theorem filledIn_saveBus (d : PciIoDevice) : d.FilledIn (saveBus d) := by
  unfold saveBus
  dsimp only
  split
  · exact ⟨by constructor <;> rfl, rfl, rfl, fun _ => ⟨rfl, rfl, rfl⟩⟩
  · rename_i hbridge
    exact ⟨by constructor <;> rfl, rfl, rfl, fun h => absurd h hbridge⟩

/-- Reading the header does not change the identity of the record. -/
theorem sameIdentity_header (d : PciIoDevice) (hdr : PciHeader) (bridge : Bool) :
    d.SameIdentity { d with pci := hdr, pciType1 := bridge } := by
  constructor <;> rfl

/-- The capability fields are not part of what is filled in first. -/
theorem PciIoDevice.FilledIn.express {d d' : PciIoDevice} (h : d.FilledIn d')
    (isPciExp : Bool) (offset : UInt8) (cap : PciExpressCap) :
    d.FilledIn { d' with
      isPciExp := isPciExp
      pciExpressCapabilityOffset := offset
      pciExpressCap := cap } := by
  obtain ⟨⟨_, _, _, _, _, _, _, _, _, _, _, _, _⟩, _, _, _⟩ := h
  refine ⟨?_, ?_, ?_, ?_⟩
  · constructor <;> assumption
  all_goals assumption

/-- The record with the header that `FillInPciIoDevice` has read. -/
def PciIoDevice.setHeader (hdr : PciHeader) (d : PciIoDevice) : PciIoDevice :=
  { d with pci := hdr, pciType1 := hdr.isPciBridge || hdr.isCardbusBridge || d.pciType1 }

/-- `FillInPciIoDevice` from the search for the capability on. -/
def fillInPciExpressCap (reader : ConfigReader) (fuel : Nat) (d : PciIoDevice) (t : Nat) :
    Run (EfiStatus × PciIoDevice × Nat) := do
  let d := { d with pciExpressCapabilityOffset := 0 }
  let (status, found, t) ←
    locateCapabilityRegBlock reader fuel d pciCapabilityIdPciExp d.pciExpressCapabilityOffset t
  match found with
  | some (offset, _) =>
      let d := { d with isPciExp := true, pciExpressCapabilityOffset := offset }
      let (status, words, t) := pciAccessRead reader t d 16 offset.toNat 30
      if status.isError then
        .ok (.success, { d with isPciExp := false }, t)
      else
        .ok (status, { d with pciExpressCap := .ofWords words }, t)
  | none => .ok (if status = .notFound ∨ status = .unsupported then .success else status, d, t)

/-- `FillInPciIoDevice` reads the header, and then the capability. -/
theorem fillInPciIoDevice_eq (reader : ConfigReader) (fuel : Nat) (d : PciIoDevice) (t : Nat) :
    fillInPciIoDevice reader fuel d t =
      let (status, dwords, t) := pciAccessRead reader t d 32 0 16
      if status.isError then .ok (status, d, t)
      else fillInPciExpressCap reader fuel (saveBus (d.setHeader (.ofDwords dwords))) t := by
  unfold fillInPciIoDevice
  generalize pciAccessRead reader t d 32 0 16 = header
  obtain ⟨status, dwords, t⟩ := header
  dsimp only
  split
  · rfl
  · have hheader : (if (PciHeader.ofDwords dwords).isPciBridge ||
        (PciHeader.ofDwords dwords).isCardbusBridge then
      { d with pci := .ofDwords dwords, pciType1 := true }
      else { d with pci := .ofDwords dwords }) = d.setHeader (.ofDwords dwords) := by
      unfold PciIoDevice.setHeader
      split
      · rename_i hbridge
        rw [hbridge, Bool.true_or]
      · rename_i hbridge
        rw [Bool.eq_false_iff.mpr hbridge, Bool.false_or]
    rw [hheader]
    rfl

/-- The capability fields, of which `PciExpressCap` is filled in only together with
`IsPciExp`, are all that depends on the search for the capability. -/
theorem fillInPciExpressCap_cases {reader : ConfigReader} {fuel t t' : Nat}
    {d d' : PciIoDevice} {status : EfiStatus}
    (h : fillInPciExpressCap reader fuel d t = .ok (status, d', t')) :
    ∃ isPciExp offset cap,
      d' = { d with
        isPciExp := isPciExp
        pciExpressCapabilityOffset := offset
        pciExpressCap := cap } ∧ (cap = d.pciExpressCap ∨ isPciExp = true) := by
  unfold fillInPciExpressCap at h
  rw [Run.bind_eq_ok] at h
  obtain ⟨⟨status₁, found, t₁⟩, -, h⟩ := h
  cases found with
  | none =>
      simp only [Except.ok.injEq, Prod.mk.injEq] at h
      obtain ⟨-, rfl, -⟩ := h
      exact ⟨_, _, _, rfl, .inl rfl⟩
  | some found =>
      obtain ⟨offset, next⟩ := found
      dsimp only at h
      split at h
      · simp only [Except.ok.injEq, Prod.mk.injEq] at h
        obtain ⟨-, rfl, -⟩ := h
        exact ⟨_, _, _, rfl, .inl rfl⟩
      · simp only [Except.ok.injEq, Prod.mk.injEq] at h
        obtain ⟨-, rfl, -⟩ := h
        exact ⟨_, _, _, rfl, .inr rfl⟩

theorem saveBus_pci (d : PciIoDevice) : (saveBus d).pci = d.pci := by
  unfold saveBus
  dsimp only
  split <;> rfl

theorem saveBus_pciType1 (d : PciIoDevice) : (saveBus d).pciType1 = d.pciType1 := by
  unfold saveBus
  dsimp only
  split <;> rfl

theorem saveBus_pciExpressCap (d : PciIoDevice) : (saveBus d).pciExpressCap = d.pciExpressCap := by
  unfold saveBus
  dsimp only
  split <;> rfl

/-- What `FillInPciIoDevice` does to a record: nothing if it cannot read the header; else
it stores the header, takes the Save copies and fills in the capability fields. -/
theorem fillInPciIoDevice_cases {reader : ConfigReader} {fuel t t' : Nat}
    {d d' : PciIoDevice} {status : EfiStatus}
    (h : fillInPciIoDevice reader fuel d t = .ok (status, d', t')) :
    (status.isError = true ∧ d' = d) ∨
      ∃ isPciExp offset cap,
        d' = { saveBus (d.setHeader (.ofDwords (pciAccessRead reader t d 32 0 16).2.1)) with
          isPciExp := isPciExp
          pciExpressCapabilityOffset := offset
          pciExpressCap := cap } ∧ (cap = d.pciExpressCap ∨ isPciExp = true) := by
  rw [fillInPciIoDevice_eq] at h
  generalize pciAccessRead reader t d 32 0 16 = header at h ⊢
  obtain ⟨status₀, dwords, t₀⟩ := header
  dsimp only at h ⊢
  split at h
  · rename_i herror
    simp only [Except.ok.injEq, Prod.mk.injEq] at h
    exact .inl ⟨h.1 ▸ herror, h.2.1.symm⟩
  · obtain ⟨isPciExp, offset, cap, hd, hcap⟩ := fillInPciExpressCap_cases h
    rw [saveBus_pciExpressCap] at hcap
    exact .inr ⟨isPciExp, offset, cap, hd, hcap⟩

/-- A successful `FillInPciIoDevice` keeps the record's identity and takes its
Save copies. -/
theorem fillInPciIoDevice_filledIn {reader : ConfigReader} {fuel t t' : Nat}
    {d d' : PciIoDevice} {status : EfiStatus}
    (h : fillInPciIoDevice reader fuel d t = .ok (status, d', t'))
    (hok : status.isError = false) : d.FilledIn d' := by
  rcases fillInPciIoDevice_cases h with ⟨herror, -⟩ | ⟨isPciExp, offset, cap, rfl, -⟩
  · rw [hok] at herror
    cases herror
  · have hfill := filledIn_saveBus
      (d.setHeader (.ofDwords (pciAccessRead reader t d 32 0 16).2.1))
    have hsame : d.SameIdentity (d.setHeader (.ofDwords (pciAccessRead reader t d 32 0 16).2.1)) :=
      sameIdentity_header d _ _
    exact PciIoDevice.FilledIn.express ⟨hsame.trans hfill.toSameIdentity, hfill.savePciIo,
      hfill.saveBusNumber, hfill.saved⟩ _ _ _

end PciMisc
end EfiApps
