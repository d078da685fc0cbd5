import EfiApps.PciMisc.Capabilities

/-!
# Looking for Thunderbolt devices

`InitAllThunderbolt` asks `LocatePciExpressCapabilityRegBlock` for one vendor-specific
capability of an upstream port after the other, until one has the ID `0x1234`.  It goes
on from the offset that the last call returned as the next one.

An offset of zero means the end of the list to `LocatePciExpressCapabilityRegBlock`
when it comes from the device, and the start of the list when it comes from the caller.
The search hands the one to the other, so it starts again after a vendor-specific
capability at the end of the list, and goes on for ever.
-/

namespace EfiApps
namespace PciMisc

/-- `PCI_EXPRESS_EXTENDED_CAPABILITY_VENDOR_SPECIFIC_ID`. -/
def pciExpressExtendedCapabilityVendorSpecificId : UInt16 := 0x000b

/-- `PCIE_DEVICE_PORT_TYPE_UPSTREAM_PORT`. -/
def pcieDevicePortTypeUpstreamPort : UInt16 := 5

/-- `Capability.Bits.DevicePortType`. -/
def PciExpressCap.devicePortType (cap : PciExpressCap) : UInt16 := (cap.capability >>> 4) &&& 0xf

/-- The loop of `InitAllThunderbolt` on one upstream port, with the values of its
variables `VendorSpecificID` and `NextOffset`.  It gives the last `VendorSpecificID`. -/
def vendorSpecificLoop (reader : ConfigReader) (b : PciIoDevice) :
    Nat → UInt16 → UInt32 → Nat → Run (UInt16 × Nat)
  | fuel, vendorSpecificID, nextOffset, t =>
      if vendorSpecificID ≠ 0x1234 then
        match fuel with
        | 0 => .error .outOfFuel
        | fuel + 1 => do
            let (_, found, t) ← locatePciExpressCapabilityRegBlock reader fuel b
              pciExpressExtendedCapabilityVendorSpecificId nextOffset t
            match found with
            | some (vendorSpecificOffset, nextOffset) =>
                let (unit, t) := pciRead reader t b 16 (vendorSpecificOffset + 4).toNat
                vendorSpecificLoop reader b fuel unit.toUInt16 nextOffset t
            -- The loop is left with the ID that has been read last.
            | none => .ok (vendorSpecificID, t)
      else
        .ok (vendorSpecificID, t)

/-- The vendor-specific search of `InitAllThunderbolt`. -/
def vendorSpecificSearch (reader : ConfigReader) (fuel : Nat) (b : PciIoDevice) (t : Nat) :
    Run (UInt16 × Nat) :=
  vendorSpecificLoop reader b fuel 0 0 t

/-- An upstream port, whose PCI Express capability has been read. -/
structure UpstreamPort (b : PciIoDevice) : Prop where
  isPciExp : b.isPciExp = true
  devicePortType : b.pciExpressCap.devicePortType = pcieDevicePortTypeUpstreamPort

/-- A record that `FillInPciIoDevice` has filled in is an upstream port if its
`DevicePortType` says so. -/
theorem fillInPciIoDevice_upstreamPort {reader : ConfigReader} {fuel t t' : Nat}
    {d d' : PciIoDevice} {status : EfiStatus} (hcap : d.pciExpressCap = {})
    (h : fillInPciIoDevice reader fuel d t = .ok (status, d', t'))
    (hport : d'.pciExpressCap.devicePortType = pcieDevicePortTypeUpstreamPort) :
    UpstreamPort d' := by
  refine ⟨?_, hport⟩
  have hempty : ({} : PciExpressCap).devicePortType ≠ pcieDevicePortTypeUpstreamPort := by decide
  -- The capability registers are stored together with `isPciExp`, and are zero before.
  rcases fillInPciIoDevice_cases h with ⟨-, rfl⟩ | ⟨_, _, _, rfl, rfl | hexpress⟩
  · exact absurd (hcap ▸ hport) hempty
  · exact absurd (hcap ▸ hport) hempty
  · exact hexpress

/-! ## The blocks of the list -/

section blocks

variable (hw : ConfigSpace) (b : PciIoDevice)

/-- The offset after the block at an offset, if there is a block. -/
def nextExpressBlock (p : UInt32) : Option UInt32 :=
  if p ≠ 0 ∧ hw.expressCapability b p ≠ 0xffffffff then
    some (nextExpressOffset (hw.expressCapability b p))
  else none

/-- There is a vendor-specific block at an offset. -/
def IsVendorSpecific (p : UInt32) : Prop :=
  p ≠ 0 ∧ hw.expressCapability b p ≠ 0xffffffff ∧
    (hw.expressCapability b p).toUInt16 = pciExpressExtendedCapabilityVendorSpecificId

instance (p : UInt32) : Decidable (IsVendorSpecific hw b p) := by
  unfold IsVendorSpecific
  infer_instance

/-- The ID word of the vendor-specific block at an offset. -/
def vendorSpecificId (p : UInt32) : UInt16 := (hw.read b 16 ((p &&& 0xffc) + 4).toNat).toUInt16

variable {hw b}

theorem nextExpressBlock_eq_none {p : UInt32} (h : nextExpressBlock hw b p = none) :
    p = 0 ∨ hw.expressCapability b p = 0xffffffff := by
  unfold nextExpressBlock at h
  by_contra hblock
  rw [not_or] at hblock
  rw [if_pos hblock] at h
  cases h

theorem nextExpressBlock_eq_some {p n : UInt32} (h : nextExpressBlock hw b p = some n) :
    p ≠ 0 ∧ hw.expressCapability b p ≠ 0xffffffff ∧
      nextExpressOffset (hw.expressCapability b p) = n := by
  obtain ⟨⟨hp, hones⟩, hn⟩ := Option.ite_none_right_eq_some.mp h
  exact ⟨hp, hones, Option.some.inj hn⟩

theorem IsVendorSpecific.next {p : UInt32} (h : IsVendorSpecific hw b p) :
    nextExpressBlock hw b p = some (nextExpressOffset (hw.expressCapability b p)) :=
  if_pos ⟨h.1, h.2.1⟩

/-- The first vendor-specific block of a list, as the call returns it. -/
def locateVendorSpecific (hw : ConfigSpace) (b : PciIoDevice) (offsets : List UInt32) :
    Option (UInt32 × UInt32) :=
  (offsets.find? (IsVendorSpecific hw b ·)).map
    fun q => (q &&& 0xffc, nextExpressOffset (hw.expressCapability b q))

/-- The call goes through the rest of the list up to the first vendor-specific block. -/
theorem locatePciExpressCapabilityLoop_list {p : UInt32} {offsets : List UInt32}
    (hlist : Linked (nextExpressBlock hw b) (some p) offsets) (fuel t : Nat) :
    locatePciExpressCapabilityLoop hw.reader b pciExpressExtendedCapabilityVendorSpecificId
        fuel p t = .error .outOfFuel ∧ fuel < offsets.length ∨
      ∃ t', locatePciExpressCapabilityLoop hw.reader b
        pciExpressExtendedCapabilityVendorSpecificId fuel p t =
          .ok (locateVendorSpecific hw b offsets, t') := by
  induction offsets generalizing p fuel t with
  | nil => cases hlist
  | cons q offsets ih =>
      obtain ⟨hq, hlist⟩ := hlist
      obtain rfl := Option.some.inj hq
      by_cases hp : p = 0
      · have hnone : nextExpressBlock hw b p = none := if_neg (by simp [hp])
        rw [hnone] at hlist
        obtain rfl : offsets = [] := hlist.unique rfl
        refine .inr ⟨t, ?_⟩
        unfold locatePciExpressCapabilityLoop locateVendorSpecific
        simp [hp, IsVendorSpecific]
      cases fuel with
      | zero =>
          refine .inl ⟨?_, by simp⟩
          unfold locatePciExpressCapabilityLoop
          rw [if_pos hp]
      | succ fuel =>
          obtain ⟨t₁, hloop⟩ := locatePciExpressCapabilityLoop_succ
            pciExpressExtendedCapabilityVendorSpecificId p fuel t
          rw [hloop, if_pos hp]
          cases hnext : nextExpressBlock hw b p with
          | none =>
              rw [hnext] at hlist
              obtain rfl : offsets = [] := hlist.unique rfl
              have hones := (nextExpressBlock_eq_none hnext).resolve_left hp
              exact .inr ⟨t₁, by simp [hones, locateVendorSpecific, IsVendorSpecific]⟩
          | some n =>
              obtain ⟨-, hones, rfl⟩ := nextExpressBlock_eq_some hnext
              rw [hnext] at hlist
              rw [if_neg hones]
              by_cases hid : (hw.expressCapability b p).toUInt16 =
                  pciExpressExtendedCapabilityVendorSpecificId
              · exact .inr ⟨t₁, by simp [hid, locateVendorSpecific, IsVendorSpecific, hp, hones]⟩
              · rw [if_neg hid]
                have hfind : locateVendorSpecific hw b (p :: offsets) =
                    locateVendorSpecific hw b offsets := by
                  simp [locateVendorSpecific, IsVendorSpecific, hid]
                rw [hfind, List.length_cons]
                rcases ih hlist fuel t₁ with ⟨herror, hfuel⟩ | hok
                · exact .inl ⟨herror, by omega⟩
                · exact .inr hok

/-! ## The search -/

/-- The list from where the search goes on. -/
def RestOfList (hw : ConfigSpace) (b : PciIoDevice) (nextOffset : UInt32)
    (offsets : List UInt32) : Prop :=
  Linked (nextExpressBlock hw b) (some (firstExpressCapability nextOffset)) offsets

/-- One call of the search, whose record is an upstream port. -/
theorem vendorSpecificLoop_succ (hexpress : b.isPciExp = true) {id : UInt16} (hid : id ≠ 0x1234)
    {nextOffset : UInt32} {offsets : List UInt32} (hrest : RestOfList hw b nextOffset offsets)
    (fuel t : Nat) :
    vendorSpecificLoop hw.reader b (fuel + 1) id nextOffset t = .error .outOfFuel ∧
        fuel < offsets.length ∨
      (¬ ∃ p ∈ offsets, IsVendorSpecific hw b p) ∧
        (∃ t', vendorSpecificLoop hw.reader b (fuel + 1) id nextOffset t = .ok (id, t')) ∨
      ∃ l p l' t', offsets = l ++ p :: l' ∧ (∀ q ∈ l, ¬ IsVendorSpecific hw b q) ∧
        IsVendorSpecific hw b p ∧
        vendorSpecificLoop hw.reader b (fuel + 1) id nextOffset t =
          vendorSpecificLoop hw.reader b fuel (vendorSpecificId hw b p)
            (nextExpressOffset (hw.expressCapability b p)) t' := by
  have hcall : locatePciExpressCapabilityRegBlock hw.reader fuel b
      pciExpressExtendedCapabilityVendorSpecificId nextOffset t = .error .outOfFuel ∧
        fuel < offsets.length ∨
      ∃ status t', locatePciExpressCapabilityRegBlock hw.reader fuel b
        pciExpressExtendedCapabilityVendorSpecificId nextOffset t =
          .ok (status, locateVendorSpecific hw b offsets, t') := by
    unfold locatePciExpressCapabilityRegBlock
    rw [if_neg (by simp [hexpress])]
    dsimp only
    rw [← firstExpressCapability]
    rcases locatePciExpressCapabilityLoop_list hrest fuel t with ⟨herror, hfuel⟩ | ⟨t₁, hok⟩
    · exact .inl ⟨by rw [herror]; rfl, hfuel⟩
    · exact .inr ⟨_, t₁, by rw [hok]; rfl⟩
  have hstep := vendorSpecificLoop.eq_def hw.reader b (fuel + 1) id nextOffset t
  dsimp only at hstep
  rw [if_pos hid] at hstep
  rw [hstep]
  rcases hcall with ⟨herror, hfuel⟩ | ⟨status, t₁, hok⟩
  · rw [herror]
    exact .inl ⟨rfl, hfuel⟩
  · right
    rw [hok]
    unfold locateVendorSpecific
    -- Without a block in the rest of the list the loop is left.
    cases hfind : offsets.find? (IsVendorSpecific hw b ·) with
    | none =>
        left
        refine ⟨?_, t₁, rfl⟩
        simpa using hfind
    | some p =>
        right
        obtain ⟨hp, l, l', rfl, hl⟩ := List.find?_eq_some_iff_append.mp hfind
        obtain ⟨t₂, hread⟩ := pciRead_reader hw t₁ b 16 ((p &&& 0xffc) + 4).toNat
        refine ⟨l, p, l', t₂, rfl, by simpa using hl, by simpa using hp, ?_⟩
        rw [Option.map_some, Run.ok_bind]
        dsimp only
        rw [hread]
        rfl

/-- After a block that is not the last one the search goes on in the list. -/
theorem restOfList_next {nextOffset p : UInt32} {l l' : List UInt32}
    (hrest : RestOfList hw b nextOffset (l ++ p :: l')) (hp : IsVendorSpecific hw b p)
    (hnext : nextExpressOffset (hw.expressCapability b p) ≠ 0) :
    RestOfList hw b (nextExpressOffset (hw.expressCapability b p)) l' := by
  have hlist := Linked.drop hrest
  rw [hp.next] at hlist
  unfold RestOfList firstExpressCapability
  rwa [if_pos hnext]

/-- There is no further block after one with a next-pointer of zero. -/
theorem not_isVendorSpecific_of_end {nextOffset p : UInt32} {l l' : List UInt32}
    (hrest : RestOfList hw b nextOffset (l ++ p :: l')) (hp : IsVendorSpecific hw b p)
    (hnext : nextExpressOffset (hw.expressCapability b p) = 0) {q : UInt32} (hq : q ∈ l') :
    ¬ IsVendorSpecific hw b q := by
  have hlist := Linked.drop hrest
  have hend : nextExpressBlock hw b 0 = none := if_neg (by simp)
  rw [hp.next, hnext] at hlist
  obtain rfl : l' = [0] := hlist.unique ⟨rfl, hend⟩
  obtain rfl : q = 0 := by simpa using hq
  exact fun h => h.1 rfl

/-- The search returns with the ID when a block of the rest of the list has it. -/
theorem vendorSpecificLoop_found (hexpress : b.isPciExp = true) (id : UInt16)
    {nextOffset : UInt32} {offsets : List UInt32} (hrest : RestOfList hw b nextOffset offsets)
    (hfound : ∃ p ∈ offsets, IsVendorSpecific hw b p ∧ vendorSpecificId hw b p = 0x1234)
    {fuel : Nat} (hfuel : offsets.length < fuel) (t : Nat) :
    ∃ t', vendorSpecificLoop hw.reader b fuel id nextOffset t = .ok (0x1234, t') := by
  induction fuel generalizing id nextOffset offsets t with
  | zero => omega
  | succ fuel ih =>
      by_cases hid : id = 0x1234
      · refine ⟨t, ?_⟩
        unfold vendorSpecificLoop
        simp [hid]
      obtain ⟨q, hq, hqvs, hqid⟩ := hfound
      rcases vendorSpecificLoop_succ hexpress hid hrest fuel t with
        ⟨-, hlt⟩ | ⟨hnone, -⟩ | ⟨l, p, l', t', rfl, hl, hp, hstep⟩
      · omega
      · exact absurd ⟨q, hq, hqvs⟩ hnone
      · rw [hstep]
        by_cases hpid : vendorSpecificId hw b p = 0x1234
        · refine ⟨t', ?_⟩
          unfold vendorSpecificLoop
          simp [hpid]
        · have hql' : q ∈ l' := by
            rcases List.mem_append.mp hq with hql | hq
            · exact absurd hqvs (hl q hql)
            · rcases List.mem_cons.mp hq with rfl | hq
              · exact absurd hqid hpid
              · exact hq
          have hnext : nextExpressOffset (hw.expressCapability b p) ≠ 0 := fun hnext =>
            not_isVendorSpecific_of_end hrest hp hnext hql' hqvs
          refine ih _ (restOfList_next hrest hp hnext) ⟨q, hql', hqvs, hqid⟩ ?_ t'
          simp only [List.length_append, List.length_cons] at hfuel
          omega

/-- The search returns without the ID when no block of the rest of the list has it and no
vendor-specific one is the last. -/
theorem vendorSpecificLoop_notFound (hexpress : b.isPciExp = true) {id : UInt16}
    (hid : id ≠ 0x1234) {nextOffset : UInt32} {offsets : List UInt32}
    (hrest : RestOfList hw b nextOffset offsets)
    (hnone : ∀ p ∈ offsets, IsVendorSpecific hw b p → vendorSpecificId hw b p ≠ 0x1234)
    (hend : ∀ p ∈ offsets, IsVendorSpecific hw b p →
      nextExpressOffset (hw.expressCapability b p) ≠ 0)
    {fuel : Nat} (hfuel : offsets.length < fuel) (t : Nat) :
    ∃ id' t', vendorSpecificLoop hw.reader b fuel id nextOffset t = .ok (id', t') ∧
      id' ≠ 0x1234 := by
  induction fuel generalizing id nextOffset offsets t with
  | zero => omega
  | succ fuel ih =>
      rcases vendorSpecificLoop_succ hexpress hid hrest fuel t with
        ⟨-, hlt⟩ | ⟨-, t', hok⟩ | ⟨l, p, l', t', rfl, -, hp, hstep⟩
      · omega
      · exact ⟨id, t', hok, hid⟩
      · rw [hstep]
        have hlater : ∀ q ∈ l', q ∈ l ++ p :: l' := fun q hq => by simp [hq]
        refine ih (hnone p (by simp) hp) (restOfList_next hrest hp (hend p (by simp) hp))
          (fun q hq => hnone q (hlater q hq)) (fun q hq => hend q (hlater q hq)) ?_ t'
        simp only [List.length_append, List.length_cons] at hfuel
        omega

/-- A list without the ID whose last block is vendor-specific. -/
structure Restarts (hw : ConfigSpace) (b : PciIoDevice) (offsets : List UInt32) : Prop where
  absent : ∀ p ∈ offsets, IsVendorSpecific hw b p → vendorSpecificId hw b p ≠ 0x1234
  last : ∃ p ∈ offsets, IsVendorSpecific hw b p ∧
    nextExpressOffset (hw.expressCapability b p) = 0

/-- The search starts again at the end of such a list, and so never returns. -/
theorem vendorSpecificLoop_restarts (hexpress : b.isPciExp = true) {whole : List UInt32}
    (hwhole : RestOfList hw b 0 whole) (hall : Restarts hw b whole)
    {id : UInt16} (hid : id ≠ 0x1234) {nextOffset : UInt32} {offsets : List UInt32}
    (hrest : RestOfList hw b nextOffset offsets) (hagain : Restarts hw b offsets)
    (fuel t : Nat) :
    vendorSpecificLoop hw.reader b fuel id nextOffset t = .error .outOfFuel := by
  induction fuel generalizing id nextOffset offsets t with
  | zero =>
      unfold vendorSpecificLoop
      rw [if_pos hid]
  | succ fuel ih =>
      obtain ⟨q, hq, hqvs, hqend⟩ := hagain.last
      rcases vendorSpecificLoop_succ hexpress hid hrest fuel t with
        ⟨herror, -⟩ | ⟨hnone, -⟩ | ⟨l, p, l', t', rfl, hl, hp, hstep⟩
      · exact herror
      · exact absurd ⟨q, hq, hqvs⟩ hnone
      · rw [hstep]
        have hpid := hagain.absent p (by simp) hp
        by_cases hnext : nextExpressOffset (hw.expressCapability b p) = 0
        · -- The end of the list: zero is also the offset to start with.
          rw [hnext]
          exact ih hpid hwhole hall t'
        · have hql' : q ∈ l' := by
            rcases List.mem_append.mp hq with hql | hq
            · exact absurd hqvs (hl q hql)
            · rcases List.mem_cons.mp hq with rfl | hq
              · exact absurd hqend hnext
              · exact hq
          exact ih hpid (restOfList_next hrest hp hnext)
            ⟨fun c hc => hagain.absent c (by simp [hc]), q, hql', hqvs, hqend⟩ t'

end blocks

/-- On a finite list the search returns, with the ID exactly if a vendor-specific block
has it, exactly if a block has it or no vendor-specific block is the last. -/
theorem vendorSpecificSearch_iff (hw : ConfigSpace) {b : PciIoDevice} (hport : UpstreamPort b)
    {offsets : List UInt32}
    (hlist : Linked (nextExpressBlock hw b) (some efiPcieCapabilityBaseOffset) offsets) :
    (∃ fuel₁, ∀ fuel ≥ fuel₁, ∀ t, ∃ id t',
      vendorSpecificSearch hw.reader fuel b t = .ok (id, t') ∧
        (id = 0x1234 ↔
          ∃ p ∈ offsets, IsVendorSpecific hw b p ∧ vendorSpecificId hw b p = 0x1234)) ↔
    (∃ p ∈ offsets, IsVendorSpecific hw b p ∧ vendorSpecificId hw b p = 0x1234) ∨
      ∀ p ∈ offsets, IsVendorSpecific hw b p →
        nextExpressOffset (hw.expressCapability b p) ≠ 0 := by
  have hrest : RestOfList hw b 0 offsets := hlist
  have hid : (0 : UInt16) ≠ 0x1234 := by decide
  constructor
  · rintro ⟨fuel, hreturns⟩
    by_contra hneither
    rw [not_or] at hneither
    obtain ⟨habsent, hlast⟩ := hneither
    push Not at habsent hlast
    have hall : Restarts hw b offsets := ⟨habsent, hlast⟩
    obtain ⟨id, t', hok, -⟩ := hreturns fuel le_rfl 0
    rw [vendorSpecificSearch, vendorSpecificLoop_restarts hport.isPciExp hrest hall hid hrest hall]
      at hok
    cases hok
  · intro hcond
    refine ⟨offsets.length + 1, fun fuel hfuel t => ?_⟩
    by_cases hfound : ∃ p ∈ offsets, IsVendorSpecific hw b p ∧ vendorSpecificId hw b p = 0x1234
    · obtain ⟨t', hok⟩ := vendorSpecificLoop_found hport.isPciExp 0 hrest hfound hfuel t
      exact ⟨0x1234, t', hok, iff_of_true rfl hfound⟩
    · have habsent : ∀ p ∈ offsets, IsVendorSpecific hw b p →
          vendorSpecificId hw b p ≠ 0x1234 := fun p hp hvs hpid => hfound ⟨p, hp, hvs, hpid⟩
      obtain ⟨id, t', hok, hne⟩ := vendorSpecificLoop_notFound hport.isPciExp hid hrest habsent
        (hcond.resolve_left hfound) hfuel t
      exact ⟨id, t', hok, iff_of_false hne hfound⟩

/-- An upstream port with an extended list. -/
def upstreamPort : PciIoDevice :=
  { pciIo := some 20, isPciExp := true, pciExpressCap := { capability := 0x52 } }

/-- A list of one vendor-specific block, with the ID word given. -/
def oneBlockSpace (id : UInt32) : ConfigSpace := fun r =>
  (.success, [match r.reg with
    | 0x100 => 0x0001000b
    | 0x104 => id
    | _ => 0])

theorem oneBlockSpace_linked (id : UInt32) :
    Linked (nextExpressBlock (oneBlockSpace id) upstreamPort) (some efiPcieCapabilityBaseOffset)
      [0x100, 0] := by
  refine ⟨rfl, ?_, ?_⟩
  · show nextExpressBlock (oneBlockSpace 0) upstreamPort 0x100 = some 0
    decide
  · rfl

/-- With the ID looked for the search returns. -/
theorem vendorSpecificSearch_iff_oneBlock :
    ∃ fuel₁, ∀ fuel ≥ fuel₁, ∀ t, ∃ id t',
      vendorSpecificSearch (oneBlockSpace 0x1234).reader fuel upstreamPort t = .ok (id, t') ∧
        (id = 0x1234 ↔ ∃ p ∈ [0x100, 0], IsVendorSpecific (oneBlockSpace 0x1234) upstreamPort p ∧
          vendorSpecificId (oneBlockSpace 0x1234) upstreamPort p = 0x1234) :=
  (vendorSpecificSearch_iff (oneBlockSpace 0x1234) ⟨rfl, by decide⟩
    (oneBlockSpace_linked 0x1234)).mpr (.inl ⟨0x100, by decide⟩)

/-- With another ID it never does. -/
theorem vendorSpecificSearch_restarts :
    UpstreamPort upstreamPort ∧
      Linked (nextExpressBlock (oneBlockSpace 1) upstreamPort) (some efiPcieCapabilityBaseOffset)
        [0x100, 0] ∧
      ∀ fuel t, ¬ (vendorSpecificSearch (oneBlockSpace 1).reader fuel upstreamPort t).Returns := by
  have hport : UpstreamPort upstreamPort := ⟨rfl, by decide⟩
  have hall : Restarts (oneBlockSpace 1) upstreamPort [0x100, 0] := by
    refine ⟨fun p hp hblock => ?_, 0x100, List.mem_cons_self, by decide⟩
    rcases List.mem_cons.mp hp with rfl | hp
    · decide
    · exact absurd (List.mem_singleton.mp hp) hblock.1
  have hrest : RestOfList (oneBlockSpace 1) upstreamPort 0 [0x100, 0] := oneBlockSpace_linked 1
  refine ⟨hport, hrest, fun fuel t => ?_⟩
  rw [vendorSpecificSearch, vendorSpecificLoop_restarts rfl hrest hall (by decide) hrest hall]
  simp

end PciMisc
end EfiApps
