import EfiApps.PciMisc.BestParent

/-!
# Configured topologies

On a machine whose bus numbers are configured, the bus ranges of the bridges of
a segment are nested or disjoint, a bridge sits on a bus below the range behind
it, and one root bridge claims the whole segment.  There the parent with the
greatest `SecondaryBus` is the innermost bridge around the bus number, so
`GetPciDevices` builds the tree the machine has, whatever the order in which the
firmware lists the handles.
-/

namespace EfiApps
namespace PciMisc

/-- The bus range of the bridge `p` contains the bus of `b`, in the same segment. -/
def OnBusOf (heap : Heap) (b p : Addr) : Prop :=
  (heap b).segmentNumber = (heap p).segmentNumber ∧
    (heap p).pci.secondaryBus ≤ (heap b).busNumber ∧
    (heap b).busNumber ≤ (heap p).pci.subordinateBus

/-- The bus range of `c` lies within the bus range of `p`. -/
def RangeWithin (heap : Heap) (c p : Addr) : Prop :=
  (heap p).pci.secondaryBus ≤ (heap c).pci.secondaryBus ∧
    (heap c).pci.subordinateBus ≤ (heap p).pci.subordinateBus

/-- The bus ranges of `c` and `p` have no bus in common. -/
def RangeDisjoint (heap : Heap) (c p : Addr) : Prop :=
  (heap c).pci.subordinateBus < (heap p).pci.secondaryBus ∨
    (heap p).pci.subordinateBus < (heap c).pci.secondaryBus

instance (heap : Heap) (b p : Addr) : Decidable (OnBusOf heap b p) :=
  inferInstanceAs (Decidable (_ ∧ _ ∧ _))

instance (heap : Heap) (c p : Addr) : Decidable (RangeWithin heap c p) :=
  inferInstanceAs (Decidable (_ ∧ _))

instance (heap : Heap) (c p : Addr) : Decidable (RangeDisjoint heap c p) :=
  inferInstanceAs (Decidable (_ ∨ _))

/-- A configured topology. -/
structure Configured (heap : Heap) (devices : List Addr) : Prop where
  hasRoot : ∀ b ∈ devices, ∃ r ∈ devices, (heap r).isSegment = true ∧
    (heap r).segmentNumber = (heap b).segmentNumber
  rootUnique : ∀ r ∈ devices, ∀ r' ∈ devices, (heap r).isSegment = true →
    (heap r').isSegment = true → (heap r).segmentNumber = (heap r').segmentNumber → r = r'
  behind : ∀ c ∈ devices, (heap c).pciType1 = true → (heap c).isSegment = false →
    (heap c).busNumber < (heap c).pci.secondaryBus ∧
      (heap c).pci.secondaryBus ≤ (heap c).pci.subordinateBus
  distinct : ∀ c ∈ devices, ∀ d ∈ devices, (heap c).pciType1 = true → (heap d).pciType1 = true →
    (heap c).segmentNumber = (heap d).segmentNumber →
    (heap c).pci.secondaryBus = (heap d).pci.secondaryBus → c = d
  laminar : ∀ c ∈ devices, ∀ d ∈ devices, (heap c).pciType1 = true → (heap d).pciType1 = true →
    (heap c).segmentNumber = (heap d).segmentNumber →
    RangeWithin heap c d ∨ RangeWithin heap d c ∨ RangeDisjoint heap c d

/-- `p` is the innermost bridge around the bus of `b`. -/
structure InnermostBridge (heap : Heap) (devices : List Addr) (b p : Addr) : Prop where
  mem : p ∈ devices
  isBridge : (heap p).pciType1 = true
  contains : OnBusOf heap b p
  innermost : ∀ c ∈ devices, (heap c).pciType1 = true → OnBusOf heap b c → RangeWithin heap p c

/-- The location `ComparePciDevice` sorts by: segment, bus, device and function. -/
def location (d : PciIoDevice) : Nat ×ₗ Nat ×ₗ Nat ×ₗ Nat :=
  toLex (d.segmentNumber, toLex (d.busNumber.toNat,
    toLex (d.deviceNumber.toNat, d.functionNumber.toNat)))

/-- `ComparePciDevice` goes by the location, and by the `PciDeviceID` at one location. -/
theorem comparePciDevice_le_iff (a b : PciIoDevice) :
    comparePciDevice a b ≤ 0 ↔
      location a < location b ∨ location a = location b ∧ a.pciDeviceID ≤ b.pciDeviceID := by
  unfold comparePciDevice location
  simp only [UInt8.lt_iff_toNat_lt, gt_iff_lt, Prod.Lex.toLex_lt_toLex,
    EmbeddingLike.apply_eq_iff_eq, Prod.mk.injEq]
  split_ifs <;> omega

theorem location_le_of_compare {a b : PciIoDevice} (h : comparePciDevice a b ≤ 0) :
    location a ≤ location b := by
  rcases (comparePciDevice_le_iff a b).mp h with hlt | ⟨heq, -⟩
  · exact le_of_lt hlt
  · exact le_of_eq heq

theorem sorts_sortByInsertion (s : Collect) :
    Sorts sortByInsertion s.compare s.pciDeviceArray := by
  let key : Addr → (Nat ×ₗ Nat ×ₗ Nat ×ₗ Nat) ×ₗ Nat := fun a =>
    toLex (location (s.heap a), (s.heap a).pciDeviceID)
  have hkey : ∀ a b, s.compare a b ≤ 0 ↔ key a ≤ key b := by
    intro a b
    rw [Prod.Lex.toLex_le_toLex]
    exact comparePciDevice_le_iff _ _
  have htotal : Std.Total fun a b => s.compare a b ≤ 0 := by
    refine ⟨fun a b => ?_⟩
    rw [hkey, hkey]
    exact le_total _ _
  have htrans : IsTrans Addr fun a b => s.compare a b ≤ 0 := by
    refine ⟨fun a b c hab hbc => ?_⟩
    rw [hkey] at hab hbc ⊢
    exact hab.trans hbc
  exact ⟨sortByInsertion_perm _ _, List.pairwise_insertionSort _ _⟩

section Configured

variable {s : Collect} {array : List Addr} {heap : Heap}

/-- Nothing contains the bus of a root bridge but the root bridge itself. -/
theorem Configured.root_parent (hconf : Configured s.heap s.pciDeviceArray) (hs : Collected s)
    {r c : Addr} (hr : r ∈ s.pciDeviceArray) (hroot : (s.heap r).isSegment = true) :
    ¬ NearestBridge s.heap s.pciDeviceArray r c := by
  intro hnear
  obtain ⟨hne, hsegment, hlow, -⟩ := hnear.claims
  cases hc : (s.heap c).isSegment with
  | true => exact hne (hconf.rootUnique c hnear.target r hr hc hroot hsegment.symm)
  | false =>
      -- A bridge that is no root bridge has a bus below its range, so bus 0 is outside it.
      have hbehind := (hconf.behind c hnear.target hnear.isBridge hc).1
      rw [(hs.root r hr hroot).1] at hlow
      rw [UInt8.le_iff_toNat_le, UInt8.toNat_zero] at hlow
      rw [UInt8.lt_iff_toNat_lt] at hbehind
      omega

/-- A bridge that is no root bridge is not on its own bus. -/
theorem Configured.not_onBusOf_self (hconf : Configured s.heap s.pciDeviceArray) {b : Addr}
    (hb : b ∈ s.pciDeviceArray) (hbridge : (s.heap b).pciType1 = true)
    (hroot : (s.heap b).isSegment = false) : ¬ OnBusOf s.heap b b := by
  rintro ⟨-, hlow, -⟩
  exact UInt8.not_lt.mpr hlow (hconf.behind b hb hbridge hroot).1

/-- The nearest bridge of a record that is no root bridge is the innermost one. -/
theorem Configured.innermost (hconf : Configured s.heap s.pciDeviceArray) {b p : Addr}
    (hroot : (s.heap b).isSegment = false)
    (hnear : NearestBridge s.heap s.pciDeviceArray b p) :
    InnermostBridge s.heap s.pciDeviceArray b p := by
  obtain ⟨hne, hsegment, hlow, hhigh⟩ := hnear.claims
  refine ⟨hnear.target, hnear.isBridge, ⟨hsegment, hlow, hhigh⟩, ?_⟩
  intro c hc hbridge honBus
  have hcb : c ≠ b := by
    rintro rfl
    exact hconf.not_onBusOf_self hc hbridge hroot honBus
  obtain ⟨hsegment', hlow', hhigh'⟩ := honBus
  have hle := hnear.nearest c hc hbridge hcb hsegment' hlow' hhigh'
  have hsame : (s.heap p).segmentNumber = (s.heap c).segmentNumber := hsegment.symm.trans hsegment'
  rcases hconf.laminar p hnear.target c hc hnear.isBridge hbridge hsame with hin | hin | hdisjoint
  · exact hin
  · -- `c` lies within `p` and starts no later, so they start together and are the same bridge.
    have hstart : (s.heap p).pci.secondaryBus = (s.heap c).pci.secondaryBus := by
      refine UInt8.le_antisymm hin.1 ?_
      rcases hle with hlt | ⟨heq, -⟩
      · exact UInt8.le_of_lt hlt
      · exact UInt8.le_of_eq heq
    obtain rfl := hconf.distinct p hnear.target c hc hnear.isBridge hbridge hsame hstart
    exact hin
  · -- Both ranges hold the bus of `b`.
    simp only [RangeDisjoint, UInt8.lt_iff_toNat_lt] at hdisjoint
    rw [UInt8.le_iff_toNat_le] at hlow hhigh hlow' hhigh'
    omega

/-- A record that is no root bridge has a nearest bridge. -/
theorem Built.exists_nearest (h : Built s array heap) (hs : Collected s)
    (hconf : Configured s.heap s.pciDeviceArray) {b : Addr} (hb : b ∈ s.pciDeviceArray)
    (hroot : (s.heap b).isSegment = false) :
    ∃ p, (heap b).parent = some p ∧ NearestBridge s.heap s.pciDeviceArray b p := by
  have hmem := h.perm.mem_iff.mpr hb
  obtain ⟨p, hp, hparent, hbest⟩ := h.mem_childrenOf hmem
  have hhost : p ≠ hostBridge := by
    rintro rfl
    -- The root bridge of the segment beats the host bridge.
    obtain ⟨r, hr, hrroot, hrsegment⟩ := hconf.hasRoot b hb
    obtain ⟨-, htype, hsecondary, hsubordinate⟩ := hs.root r hr hrroot
    have hadopt : MayAdopt s.heap b r := by
      refine ⟨?_, .inr hrsegment.symm, ?_, ?_⟩
      · rintro rfl
        rw [hrroot] at hroot
        cases hroot
      · rw [hsecondary]
        exact UInt8.zero_le
      · rw [hsubordinate, UInt8.le_iff_toNat_le]
        exact Nat.lt_succ_iff.mp (s.heap b).busNumber.toNat_lt
    have hle := hbest.greatest r (List.mem_cons_of_mem _ (List.mem_filter.mpr
      ⟨h.perm.mem_iff.mpr hr, by simpa using htype⟩)) hadopt
    rw [parentKey_le_iff, hsecondary, hs.hostSecondary, hs.hostID] at hle
    rcases hle with hlt | ⟨-, hid⟩
    · exact UInt8.lt_irrefl _ hlt
    · exact absurd hid (not_le.mpr (hs.idPos r hr))
  exact ⟨p, hparent, (h.parent_eq_iff hs hmem hhost).mp hparent⟩

end Configured

/-- On a configured topology, whatever the order of the handles, every root
bridge becomes a child of the host bridge, every other record a child of the
innermost bridge around its bus number, and every child list is sorted by
location and holds exactly the records with that parent. -/
theorem buildTree_configured {fuel₀ : Nat} {roots : List RootHandle}
    {handles : List PciIoHandle} {s : Collect} (hs : collect fuel₀ roots handles = .ok s)
    (hconf : Configured s.heap s.pciDeviceArray) {performQuickSort : PerformQuickSort}
    (hsort : Sorts performQuickSort s.compare s.pciDeviceArray) :
    ∃ fuel₁, ∀ fuel ≥ fuel₁, ∃ heap,
      buildTree performQuickSort fuel s =
        .ok (heap, performQuickSort s.compare s.pciDeviceArray) ∧
      (∀ r ∈ s.pciDeviceArray, (s.heap r).isSegment = true →
        (heap r).parent = some hostBridge) ∧
      (∀ b ∈ s.pciDeviceArray, (s.heap b).isSegment = false → ∃ p, (heap b).parent = some p ∧
        InnermostBridge s.heap s.pciDeviceArray b p ∧
        ((∀ c ∈ s.pciDeviceArray, (s.heap c).pciType1 = true → OnBusOf s.heap b c →
          (s.heap c).isSegment = true) → (s.heap p).isSegment = true)) ∧
      ∀ p ∈ hostBridge :: s.pciDeviceArray, ∃ l,
        Linked (fun a => (heap a).nextSibling) (heap p).firstChild l ∧
        l.Pairwise (fun a b => location (heap a) ≤ location (heap b)) ∧
        ∀ b, b ∈ l ↔ b ∈ s.pciDeviceArray ∧ (heap b).parent = some p := by
  have hcollected := collected_collect hs
  refine ⟨s.pciDeviceArray.length + 1, fun fuel hfuel => ?_⟩
  obtain ⟨heap, hrun, hbuilt⟩ := buildTree_built hcollected hsort.perm (Nat.lt_of_succ_le hfuel)
  refine ⟨heap, hrun, fun r hr hroot => ?_, fun b hb hroot => ?_, fun p hp => ?_⟩
  · obtain ⟨p, -, hparent⟩ := hbuilt.parent_mem (hbuilt.perm.mem_iff.mpr hr)
    by_cases hhost : p = hostBridge
    · rw [hparent, hhost]
    · exact absurd ((hbuilt.parent_eq_iff hcollected (hbuilt.perm.mem_iff.mpr hr) hhost).mp hparent)
        (hconf.root_parent hcollected hr hroot)
  · obtain ⟨p, hparent, hnear⟩ := hbuilt.exists_nearest hcollected hconf hb hroot
    have hinner := hconf.innermost hroot hnear
    exact ⟨p, hparent, hinner, fun honly => honly p hinner.mem hinner.isBridge hinner.contains⟩
  · refine ⟨_, hbuilt.children.linked p, ?_, fun b => ⟨fun hmem => ⟨?_, ?_⟩, ?_⟩⟩
    · refine List.Pairwise.filter _ (hsort.sorted.imp fun {a b} hab => ?_)
      have hlocation : ∀ a, location (heap a) = location (s.heap a) := by
        intro a
        rw [location, location, hbuilt.registers.segmentNumber, hbuilt.registers.busNumber,
          hbuilt.registers.deviceNumber, hbuilt.registers.functionNumber]
      rw [hlocation, hlocation]
      exact location_le_of_compare hab
    · exact hsort.perm.mem_iff.mp (List.mem_filter.mp hmem).1
    · exact hbuilt.children.owner p b hmem
    · rintro ⟨hb, hparent⟩
      obtain ⟨q, hq, hq', -⟩ := hbuilt.mem_childrenOf (hbuilt.perm.mem_iff.mpr hb)
      obtain rfl : q = p := Option.some.inj (hq'.symm.trans hparent)
      exact hq

/-- One root bridge, a function on bus 1, and the bridge it is behind. -/
def smallMachine : Collect :=
  match collect 0 [goodRoot 7 0] [quietHandle 1 0 [], quietHandle 0 3 bridgeDwords] with
  | .ok s => s
  | .error _ => .init

theorem configured_smallMachine : Configured smallMachine.heap smallMachine.pciDeviceArray := by
  constructor <;> decide +kernel

theorem buildTree_configured_smallMachine :
    Configured smallMachine.heap smallMachine.pciDeviceArray ∧
      ∃ fuel₁, ∀ fuel ≥ fuel₁, ∃ heap,
        buildTree sortByInsertion fuel smallMachine = .ok (heap, [1, 3, 2]) ∧
        (heap 1).parent = some hostBridge ∧
        ∃ p, (heap 2).parent = some p ∧
          InnermostBridge smallMachine.heap smallMachine.pciDeviceArray 2 p := by
  have harray : sortByInsertion smallMachine.compare smallMachine.pciDeviceArray = [1, 3, 2] := by
    decide +kernel
  obtain ⟨fuel₁, htree⟩ := buildTree_configured
    (show collect 0 [goodRoot 7 0] [quietHandle 1 0 [], quietHandle 0 3 bridgeDwords] =
      .ok smallMachine from rfl) configured_smallMachine (sorts_sortByInsertion smallMachine)
  refine ⟨configured_smallMachine, fuel₁, fun fuel hfuel => ?_⟩
  obtain ⟨heap, hrun, hroots, hothers, -⟩ := htree fuel hfuel
  rw [harray] at hrun
  obtain ⟨p, hparent, hinner, -⟩ := hothers 2 (by decide +kernel) (by decide +kernel)
  exact ⟨heap, hrun, hroots 1 (by decide +kernel) (by decide +kernel), p, hparent, hinner⟩

end PciMisc
end EfiApps
