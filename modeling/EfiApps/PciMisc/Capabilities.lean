import EfiApps.Lib.Walk
import EfiApps.PciMisc.Config

/-!
# The capability lists

`LocateCapabilityRegBlock` and `LocatePciExpressCapabilityRegBlock` follow pointers that
the device supplies.  When the device answers every read of a register alike, they
return unless the pointers lead them round a ring of blocks with another ID; only the
first of them notices a block that points to itself.
-/

namespace EfiApps
namespace PciMisc

/-! ## The extended list -/

/-- `EFI_PCIE_CAPABILITY_BASE_OFFSET`. -/
def efiPcieCapabilityBaseOffset : UInt32 := 0x100

/-- The loop of `LocatePciExpressCapabilityRegBlock`. -/
def locatePciExpressCapabilityLoop (reader : ConfigReader) (d : PciIoDevice) (capId : UInt16) :
    Nat → UInt32 → Nat → Run (Option (UInt32 × UInt32) × Nat)
  | fuel, capabilityPtr, t =>
      if capabilityPtr ≠ 0 then
        match fuel with
        | 0 => .error .outOfFuel
        | fuel + 1 =>
            -- The two lowest bits of a next pointer are reserved.
            let capabilityPtr := capabilityPtr &&& 0xffc
            let (capabilityEntry, t) := pciRead reader t d 32 capabilityPtr.toNat
            -- No function answers.
            if capabilityEntry = 0xffffffff then .ok (none, t)
            else if capabilityEntry.toUInt16 = capId then
              .ok (some (capabilityPtr, (capabilityEntry >>> 20) &&& 0xfff), t)
            else
              locatePciExpressCapabilityLoop reader d capId fuel
                ((capabilityEntry >>> 20) &&& 0xfff) t
      else
        .ok (none, t)

/-- `LocatePciExpressCapabilityRegBlock`: the offset of the capability and the offset of
the next one. -/
def locatePciExpressCapabilityRegBlock (reader : ConfigReader) (fuel : Nat) (d : PciIoDevice)
    (capId : UInt16) (offset : UInt32) (t : Nat) :
    Run (EfiStatus × Option (UInt32 × UInt32) × Nat) :=
  if d.isPciExp = false then .ok (.unsupported, none, t)
  else do
    let capabilityPtr := if offset ≠ 0 then offset else efiPcieCapabilityBaseOffset
    let (found, t) ← locatePciExpressCapabilityLoop reader d capId fuel capabilityPtr t
    .ok (if found.isSome then .success else .notFound, found, t)

/-! ## Devices that answer every read of a register alike -/

/-- The contents of configuration space: the answer to each read. -/
abbrev ConfigSpace := ConfigRead → EfiStatus × List UInt32

/-- The reader of a configuration space that does not change. -/
def ConfigSpace.reader (hw : ConfigSpace) : ConfigReader := fun _ => hw

/-- What `PciRead8`, `PciRead16` or `PciRead32` gives. -/
def ConfigSpace.read (hw : ConfigSpace) (d : PciIoDevice) (width reg : Nat) : UInt32 :=
  (pciRead hw.reader 0 d width reg).1

theorem pciRead_reader (hw : ConfigSpace) (t : Nat) (d : PciIoDevice) (width reg : Nat) :
    ∃ t', pciRead hw.reader t d width reg = (hw.read d width reg, t') := by
  refine ⟨(pciRead hw.reader t d width reg).2, Prod.ext ?_ rfl⟩
  unfold ConfigSpace.read pciRead pciAccessRead
  cases d.configPath with
  | none => rfl
  | some path => rfl

/-- What a register reads as depends only on the way to the function. -/
theorem ConfigSpace.read_congr (hw : ConfigSpace) {d d' : PciIoDevice}
    (hpath : d'.configPath = d.configPath) (width reg : Nat) :
    hw.read d' width reg = hw.read d width reg := by
  unfold ConfigSpace.read pciRead pciAccessRead
  rw [hpath]

section walks

variable (hw : ConfigSpace) (d : PciIoDevice)

/-- The ID of the capability at an offset, and its next-pointer. -/
def ConfigSpace.capability (p : UInt8) : UInt8 × UInt8 :=
  let capabilityEntry := (hw.read d 16 p.toNat).toUInt16
  (capabilityEntry.toUInt8, (capabilityEntry >>> 8).toUInt8)

/-- Where `LocateCapabilityRegBlock` goes from an offset, if it goes on. -/
def nextCapability (capId p : UInt8) : Option UInt8 :=
  if (p ≥ 0x40 ∧ p &&& 0x03 = 0) ∧ (hw.capability d p).1 ≠ capId ∧
      p ≠ (hw.capability d p).2 then
    some (hw.capability d p).2
  else none

/-- Where `LocateCapabilityRegBlock` starts. -/
def firstCapability (offset : UInt8) : UInt8 :=
  if offset ≠ 0 then offset
  else (hw.read d 8 (if d.pci.isCardbusBridge then pciCardbusBridgeCapabilityPtr
    else pciCapabilityPointerOffset)).toUInt8

/-- The dword at an offset of the extended list. -/
def ConfigSpace.expressCapability (p : UInt32) : UInt32 := hw.read d 32 (p &&& 0xffc).toNat

/-- The next-pointer in a dword of the extended list. -/
def nextExpressOffset (capabilityEntry : UInt32) : UInt32 := (capabilityEntry >>> 20) &&& 0xfff

/-- Where `LocatePciExpressCapabilityRegBlock` goes from an offset, if it goes on. -/
def nextExpressCapability (capId : UInt16) (p : UInt32) : Option UInt32 :=
  if p ≠ 0 ∧ hw.expressCapability d p ≠ 0xffffffff ∧
      (hw.expressCapability d p).toUInt16 ≠ capId then
    some (nextExpressOffset (hw.expressCapability d p))
  else none

/-- Where `LocatePciExpressCapabilityRegBlock` starts. -/
def firstExpressCapability (offset : UInt32) : UInt32 :=
  if offset ≠ 0 then offset else efiPcieCapabilityBaseOffset

variable {hw d}

/-- The loop over the capability list, on a device that does not change. -/
theorem locateCapabilityLoop_succ (capId p : UInt8) (fuel t : Nat) :
    ∃ t', locateCapabilityLoop hw.reader d capId (fuel + 1) p t =
      if p ≥ 0x40 ∧ p &&& 0x03 = 0 then
        if (hw.capability d p).1 = capId then .ok (some (p, (hw.capability d p).2), t')
        else if p = (hw.capability d p).2 then .ok (none, t')
        else locateCapabilityLoop hw.reader d capId fuel (hw.capability d p).2 t'
      else .ok (none, t) := by
  obtain ⟨t', hread⟩ := pciRead_reader hw t d 16 p.toNat
  refine ⟨t', ?_⟩
  conv_lhs => unfold locateCapabilityLoop
  dsimp only
  rw [hread]
  rfl

theorem locateCapabilityLoop_step {capId p p' : UInt8} (h : nextCapability hw d capId p = some p')
    (fuel t : Nat) : ∃ t', locateCapabilityLoop hw.reader d capId (fuel + 1) p t =
      locateCapabilityLoop hw.reader d capId fuel p' t' := by
  obtain ⟨⟨hin, hid, hself⟩, hp'⟩ := Option.ite_none_right_eq_some.mp h
  obtain ⟨t', hloop⟩ := locateCapabilityLoop_succ capId p fuel t
  refine ⟨t', ?_⟩
  rw [hloop, if_pos hin, if_neg hid, if_neg hself, Option.some.inj hp']

theorem locateCapabilityLoop_zero {capId p p' : UInt8} (h : nextCapability hw d capId p = some p')
    (t : Nat) : locateCapabilityLoop hw.reader d capId 0 p t = .error .outOfFuel := by
  obtain ⟨⟨hin, -⟩, -⟩ := Option.ite_none_right_eq_some.mp h
  unfold locateCapabilityLoop
  rw [if_pos hin]

theorem locateCapabilityLoop_end {capId p : UInt8} (h : nextCapability hw d capId p = none)
    (fuel t : Nat) : (locateCapabilityLoop hw.reader d capId (fuel + 1) p t).Returns := by
  obtain ⟨t', hloop⟩ := locateCapabilityLoop_succ capId p fuel t
  rw [hloop]
  split_ifs with hin hid hself
  · exact Run.returns_ok _
  · exact Run.returns_ok _
  · rw [nextCapability, if_pos ⟨hin, hid, hself⟩] at h
    cases h
  · exact Run.returns_ok _

/-- The loop over the extended list, on a device that does not change. -/
theorem locatePciExpressCapabilityLoop_succ (capId : UInt16) (p : UInt32) (fuel t : Nat) :
    ∃ t', locatePciExpressCapabilityLoop hw.reader d capId (fuel + 1) p t =
      if p ≠ 0 then
        if hw.expressCapability d p = 0xffffffff then .ok (none, t')
        else if (hw.expressCapability d p).toUInt16 = capId then
          .ok (some (p &&& 0xffc, nextExpressOffset (hw.expressCapability d p)), t')
        else locatePciExpressCapabilityLoop hw.reader d capId fuel
          (nextExpressOffset (hw.expressCapability d p)) t'
      else .ok (none, t) := by
  obtain ⟨t', hread⟩ := pciRead_reader hw t d 32 (p &&& 0xffc).toNat
  refine ⟨t', ?_⟩
  conv_lhs => unfold locatePciExpressCapabilityLoop
  dsimp only
  rw [hread]
  rfl

theorem locatePciExpressCapabilityLoop_step {capId : UInt16} {p p' : UInt32}
    (h : nextExpressCapability hw d capId p = some p') (fuel t : Nat) :
    ∃ t', locatePciExpressCapabilityLoop hw.reader d capId (fuel + 1) p t =
      locatePciExpressCapabilityLoop hw.reader d capId fuel p' t' := by
  obtain ⟨⟨hp, hones, hid⟩, hp'⟩ := Option.ite_none_right_eq_some.mp h
  obtain ⟨t', hloop⟩ := locatePciExpressCapabilityLoop_succ capId p fuel t
  refine ⟨t', ?_⟩
  rw [hloop, if_pos hp, if_neg hones, if_neg hid, Option.some.inj hp']

theorem locatePciExpressCapabilityLoop_zero {capId : UInt16} {p p' : UInt32}
    (h : nextExpressCapability hw d capId p = some p') (t : Nat) :
    locatePciExpressCapabilityLoop hw.reader d capId 0 p t = .error .outOfFuel := by
  obtain ⟨⟨hp, -⟩, -⟩ := Option.ite_none_right_eq_some.mp h
  unfold locatePciExpressCapabilityLoop
  rw [if_pos hp]

theorem locatePciExpressCapabilityLoop_end {capId : UInt16} {p : UInt32}
    (h : nextExpressCapability hw d capId p = none) (fuel t : Nat) :
    (locatePciExpressCapabilityLoop hw.reader d capId (fuel + 1) p t).Returns := by
  obtain ⟨t', hloop⟩ := locatePciExpressCapabilityLoop_succ capId p fuel t
  rw [hloop]
  split_ifs with hp hones hid
  · exact Run.returns_ok _
  · exact Run.returns_ok _
  · rw [nextExpressCapability, if_pos ⟨hp, hones, hid⟩] at h
    cases h
  · exact Run.returns_ok _

theorem locateCapabilityLoop_congr {reader : ConfigReader} {d d' : PciIoDevice}
    (hpath : d'.configPath = d.configPath) (capId p : UInt8) (fuel t : Nat) :
    locateCapabilityLoop reader d' capId fuel p t =
      locateCapabilityLoop reader d capId fuel p t := by
  have hread : ∀ width reg, ∀ t, pciRead reader t d' width reg = pciRead reader t d width reg := by
    intro width reg t
    unfold pciRead pciAccessRead
    rw [hpath]
  induction fuel generalizing p t with
  | zero =>
      unfold locateCapabilityLoop
      rfl
  | succ fuel ih =>
      unfold locateCapabilityLoop
      simp only [hread, ih]

/-- The search uses no more of a record than its header and the way to the function. -/
theorem locateCapabilityRegBlock_congr {reader : ConfigReader} {d d' : PciIoDevice}
    (hpath : d'.configPath = d.configPath) (hpci : d'.pci = d.pci) (capId offset : UInt8)
    (fuel t : Nat) :
    locateCapabilityRegBlock reader fuel d' capId offset t =
      locateCapabilityRegBlock reader fuel d capId offset t := by
  unfold locateCapabilityRegBlock pciCapabilitySupport pciRead pciAccessRead
  simp only [hpath, hpci, locateCapabilityLoop_congr hpath]

/-- Without a capability the search has failed in one of two ways. -/
theorem locateCapabilityRegBlock_status {reader : ConfigReader} {capId offset : UInt8}
    {fuel t t' : Nat} {status : EfiStatus}
    (h : locateCapabilityRegBlock reader fuel d capId offset t = .ok (status, none, t')) :
    status = .notFound ∨ status = .unsupported := by
  unfold locateCapabilityRegBlock at h
  split at h
  · simp only [Except.ok.injEq, Prod.mk.injEq] at h
    exact .inr h.1.symm
  · dsimp only at h
    rw [Run.bind_eq_ok] at h
    obtain ⟨⟨found, t₁⟩, -, h⟩ := h
    simp only [Except.ok.injEq, Prod.mk.injEq] at h
    obtain ⟨rfl, rfl, -⟩ := h
    exact .inl rfl

theorem finite_uInt8 : Finite UInt8 :=
  .of_injective UInt8.toFin fun _ _ h => UInt8.toFin_inj.mp h

theorem finite_uInt32 : Finite UInt32 :=
  .of_injective UInt32.toFin fun _ _ h => UInt32.toFin_inj.mp h

theorem locateCapabilityRegBlock_returns {capId offset : UInt8}
    (hsupport : pciCapabilitySupport d = true) (fuel t : Nat) :
    ∃ t', (locateCapabilityRegBlock hw.reader fuel d capId offset t).Returns ↔
      (locateCapabilityLoop hw.reader d capId fuel (firstCapability hw d offset) t').Returns := by
  have hstart : ∃ t', (if offset ≠ 0 then (offset, t)
      else
        let (unit, t) := pciRead hw.reader t d 8
          (if d.pci.isCardbusBridge then pciCardbusBridgeCapabilityPtr
            else pciCapabilityPointerOffset)
        (unit.toUInt8, t)) = (firstCapability hw d offset, t') := by
    unfold firstCapability
    split
    · exact ⟨t, rfl⟩
    · obtain ⟨t', hread⟩ := pciRead_reader hw t d 8
        (if d.pci.isCardbusBridge then pciCardbusBridgeCapabilityPtr else pciCapabilityPointerOffset)
      rw [hread]
      exact ⟨t', rfl⟩
  obtain ⟨t', hstart⟩ := hstart
  refine ⟨t', ?_⟩
  unfold locateCapabilityRegBlock
  rw [if_neg (by simp [hsupport])]
  dsimp only at hstart ⊢
  rw [hstart]
  cases locateCapabilityLoop hw.reader d capId fuel (firstCapability hw d offset) t' with
  | ok r => simp
  | error e => simp

theorem locatePciExpressCapabilityRegBlock_returns {capId : UInt16} {offset : UInt32}
    (hexpress : d.isPciExp = true) (fuel t : Nat) :
    (locatePciExpressCapabilityRegBlock hw.reader fuel d capId offset t).Returns ↔
      (locatePciExpressCapabilityLoop hw.reader d capId fuel (firstExpressCapability offset) t).Returns := by
  unfold locatePciExpressCapabilityRegBlock
  rw [if_neg (by simp [hexpress])]
  dsimp only
  rw [← firstExpressCapability]
  cases locatePciExpressCapabilityLoop hw.reader d capId fuel (firstExpressCapability offset) t with
  | ok r => simp
  | error e => simp

/-- The walk along the capability list ends, if there is a list. -/
def CapabilityListEnds (hw : ConfigSpace) (d : PciIoDevice) (capId offset : UInt8) : Prop :=
  pciCapabilitySupport d = true → WalkEnds (nextCapability hw d capId) (firstCapability hw d offset)

/-- The walk along the extended list ends, if there is a list. -/
def ExpressCapabilityListEnds (hw : ConfigSpace) (d : PciIoDevice) (capId : UInt16)
    (offset : UInt32) : Prop :=
  d.isPciExp = true → WalkEnds (nextExpressCapability hw d capId) (firstExpressCapability offset)

theorem capabilityListEnds_of_returns {capId offset : UInt8} {fuel t : Nat}
    (h : (locateCapabilityRegBlock hw.reader fuel d capId offset t).Returns) :
    CapabilityListEnds hw d capId offset := by
  intro hsupport
  obtain ⟨t', hloop⟩ := locateCapabilityRegBlock_returns hsupport fuel t
  exact walkEnds_of_returns (fun _ _ t h => locateCapabilityLoop_zero h t)
    (fun fuel _ _ t h => locateCapabilityLoop_step h fuel t) (hloop.mp h)

/-- A walk from offset to offset that ends passes each at most once. -/
theorem length_le_of_linked {next : UInt8 → Option UInt8} {p : Option UInt8} {l : List UInt8}
    (h : Linked next p l) : l.length ≤ 256 := by
  have hnodup : (l.map UInt8.toNat).Nodup := h.nodup.map fun _ _ h => UInt8.toNat_inj.mp h
  have hsub : l.map UInt8.toNat ⊆ List.range 256 := by
    intro n hn
    obtain ⟨u, -, rfl⟩ := List.mem_map.mp hn
    exact List.mem_range.mpr u.toNat_lt
  simpa using (hnodup.subperm hsub).length_le

/-- Fuel for each offset is enough. -/
theorem CapabilityListEnds.returns_of_le {capId offset : UInt8}
    (h : CapabilityListEnds hw d capId offset) {fuel : Nat} (hfuel : 256 ≤ fuel) (t : Nat) :
    (locateCapabilityRegBlock hw.reader fuel d capId offset t).Returns := by
  cases hsupport : pciCapabilitySupport d with
  | false => simp [locateCapabilityRegBlock, hsupport]
  | true =>
      obtain ⟨l, hl⟩ := h hsupport
      obtain ⟨t', hloop⟩ := locateCapabilityRegBlock_returns hsupport fuel t
      exact hloop.mpr (returns_of_linked (fun fuel _ _ t h => locateCapabilityLoop_step h fuel t)
        (fun fuel _ t h => locateCapabilityLoop_end h fuel t) hl
        ((length_le_of_linked hl).trans hfuel) t')

theorem CapabilityListEnds.returns {capId offset : UInt8}
    (h : CapabilityListEnds hw d capId offset) :
    ∃ fuel₁, ∀ fuel ≥ fuel₁, ∀ t,
      (locateCapabilityRegBlock hw.reader fuel d capId offset t).Returns :=
  ⟨256, fun _ hfuel t => h.returns_of_le hfuel t⟩

theorem expressCapabilityListEnds_of_returns {capId : UInt16} {offset : UInt32} {fuel t : Nat}
    (h : (locatePciExpressCapabilityRegBlock hw.reader fuel d capId offset t).Returns) :
    ExpressCapabilityListEnds hw d capId offset := by
  intro hexpress
  exact walkEnds_of_returns (fun _ _ t h => locatePciExpressCapabilityLoop_zero h t)
    (fun fuel _ _ t h => locatePciExpressCapabilityLoop_step h fuel t)
    ((locatePciExpressCapabilityRegBlock_returns hexpress fuel t).mp h)

theorem ExpressCapabilityListEnds.returns {capId : UInt16} {offset : UInt32}
    (h : ExpressCapabilityListEnds hw d capId offset) :
    ∃ fuel₁, ∀ fuel ≥ fuel₁, ∀ t,
      (locatePciExpressCapabilityRegBlock hw.reader fuel d capId offset t).Returns := by
  cases hexpress : d.isPciExp with
  | false => exact ⟨0, fun fuel _ t => by simp [locatePciExpressCapabilityRegBlock, hexpress]⟩
  | true =>
      obtain ⟨fuel₁, hreturns⟩ := (h hexpress).returns
        (fun fuel _ _ t h => locatePciExpressCapabilityLoop_step h fuel t)
        fun fuel _ t h => locatePciExpressCapabilityLoop_end h fuel t
      refine ⟨fuel₁, fun fuel hfuel t => ?_⟩
      exact (locatePciExpressCapabilityRegBlock_returns hexpress fuel t).mpr
        (hreturns fuel hfuel t)

end walks

/-- On a device that does not change, both functions return exactly if the pointers do
not lead them round a ring of blocks with another ID. -/
theorem locateCapability_returns_iff (hw : ConfigSpace) (d : PciIoDevice) :
    (∀ capId offset,
      (∃ fuel₁, ∀ fuel ≥ fuel₁, ∀ t,
        (locateCapabilityRegBlock hw.reader fuel d capId offset t).Returns) ↔
      (pciCapabilitySupport d = true →
        ¬ ReachesRing (nextCapability hw d capId) (firstCapability hw d offset))) ∧
    ∀ capId offset,
      (∃ fuel₁, ∀ fuel ≥ fuel₁, ∀ t,
        (locatePciExpressCapabilityRegBlock hw.reader fuel d capId offset t).Returns) ↔
      (d.isPciExp = true →
        ¬ ReachesRing (nextExpressCapability hw d capId) (firstExpressCapability offset)) := by
  constructor
  · intro capId offset
    have := finite_uInt8
    rw [← walkEnds_iff]
    constructor
    · rintro ⟨fuel, hreturns⟩
      exact capabilityListEnds_of_returns (hreturns fuel le_rfl 0)
    · exact CapabilityListEnds.returns
  · intro capId offset
    have := finite_uInt32
    rw [← walkEnds_iff]
    constructor
    · rintro ⟨fuel, hreturns⟩
      exact expressCapabilityListEnds_of_returns (hreturns fuel le_rfl 0)
    · exact ExpressCapabilityListEnds.returns

/-- A function with both capability lists. -/
def listedDevice : PciIoDevice := { pciIo := some 20, pci := { status := 0x10 }, isPciExp := true }

/-- Two capabilities that point to each other, and an extended one that points to
itself. -/
def ringSpace : ConfigSpace := fun r =>
  (.success, [match r.reg with
    | 0x34 => 0x40
    | 0x40 => 0x4401
    | 0x44 => 0x4001
    | 0x100 => 0x10010001
    | _ => 0])

/-- Neither function returns if the ID is not on the ring. -/
theorem locateCapability_ring :
    (∀ fuel t, ¬ (locateCapabilityRegBlock ringSpace.reader fuel listedDevice
      pciCapabilityIdPciExp 0 t).Returns) ∧
    ∀ fuel t, ¬ (locatePciExpressCapabilityRegBlock ringSpace.reader fuel listedDevice
      0x0b 0 t).Returns := by
  constructor
  · intro fuel t hreturns
    have hforth : nextCapability ringSpace listedDevice pciCapabilityIdPciExp 0x40 = some 0x44 := by
      decide
    have hback : nextCapability ringSpace listedDevice pciCapabilityIdPciExp 0x44 = some 0x40 := by
      decide
    have hring : OnRing (nextCapability ringSpace listedDevice pciCapabilityIdPciExp) 0x40 :=
      (Relation.TransGen.single (b := 0x44) hforth).tail hback
    exact hring.not_walkEnds (capabilityListEnds_of_returns hreturns (by decide))
  · intro fuel t hreturns
    have hself : nextExpressCapability ringSpace listedDevice 0x0b 0x100 = some 0x100 := by decide
    have hring : OnRing (nextExpressCapability ringSpace listedDevice 0x0b) 0x100 := .single hself
    exact hring.not_walkEnds (expressCapabilityListEnds_of_returns hreturns (by decide))

end PciMisc
end EfiApps
