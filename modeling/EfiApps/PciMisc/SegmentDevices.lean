import EfiApps.PciMisc.BestParent
import EfiApps.PciMisc.UnusedRange
import Mathlib.Data.Finset.Lattice.Fold

/-!
# The root bridge of each record

`Get root for each device` goes up from every record to the host bridge.  A record
without a `PciRootBridgeIo` takes the one of its nearest ancestor that has one, and every
root bridge on the way marks the buses of the record in its `UsedBuses`: the bus the
record is on, and the whole range behind it if it is a bridge.

The loop over that range counts with a `UINT8`, so it does not end if the range goes up
to bus 255.
-/

namespace EfiApps
namespace PciMisc

open Relation

namespace PciIoDevice

def setPciRootBridgeIo (io : Option RootBridgeIo) (d : PciIoDevice) : PciIoDevice :=
  { d with pciRootBridgeIo := io }

def setSegmentDevice (p : Option Addr) (d : PciIoDevice) : PciIoDevice :=
  { d with segmentDevice := p }

def setUsedBuses (buses : UsedBuses) (d : PciIoDevice) : PciIoDevice :=
  { d with usedBuses := buses }

/-- The record without the fields that the pass sets. -/
def eraseRoot (d : PciIoDevice) : PciIoDevice :=
  { d with pciRootBridgeIo := none, segmentDevice := none, usedBuses := Vector.replicate 8 0 }

variable (d : PciIoDevice)

@[simp] theorem eraseRoot_setPciRootBridgeIo (io : Option RootBridgeIo) :
    (d.setPciRootBridgeIo io).eraseRoot = d.eraseRoot := rfl
@[simp] theorem eraseRoot_setSegmentDevice (p : Option Addr) :
    (d.setSegmentDevice p).eraseRoot = d.eraseRoot := rfl
@[simp] theorem eraseRoot_setUsedBuses (buses : UsedBuses) :
    (d.setUsedBuses buses).eraseRoot = d.eraseRoot := rfl

end PciIoDevice

/-- `for (UINT8 Bus = bus; Bus <= SubordinateBus; Bus++) SetBus (UsedBuses, Bus)`. -/
def markBuses (subordinateBus : UInt8) : Nat → UInt8 → UsedBuses → Run UsedBuses
  | fuel, bus, buses =>
      if bus ≤ subordinateBus then
        match fuel with
        | 0 => .error .outOfFuel
        | fuel + 1 => markBuses subordinateBus fuel (bus + 1) (setBus buses bus.toNat)
      else .ok buses

/-- The inner body of `Get root for each device`, for the record `b` and its ancestor `c`. -/
def visitAncestor (fuel : Nat) (b c : Addr) (heap : Heap) : Run Heap :=
  let heap :=
    if (heap b).pciRootBridgeIo = none ∧ (heap c).pciRootBridgeIo ≠ none then
      heap.modify b (.setPciRootBridgeIo (heap c).pciRootBridgeIo)
    else heap
  if (heap c).isSegment then
    let heap := heap.modify b (.setSegmentDevice (some c))
    let heap := heap.modify c
      fun d => d.setUsedBuses (setBus d.usedBuses (heap b).busNumber.toNat)
    -- The buses behind a bridge are in use too.
    if (heap b).pciType1 then do
      let usedBuses ← markBuses (heap b).pci.subordinateBus fuel (heap b).pci.secondaryBus
        (heap c).usedBuses
      .ok (heap.modify c (.setUsedBuses usedBuses))
    else .ok heap
  else .ok heap

/-- The body of `Get root for each device`, for the record `b`. -/
def getRootOfDevice (fuel : Nat) (heap : Heap) (b : Addr) : Run Heap :=
  forEach (fun heap c => (heap c).parent) (visitAncestor fuel b) fuel (heap b).parent heap

/-- The loop `Get root for each device`. -/
def getRootOfEachDevice (fuel : Nat) (heap : Heap) (array : List Addr) : Run Heap :=
  array.foldlM (getRootOfDevice fuel) heap

/-! ## Marking one range -/

/-- Above its end, nothing of a range is left, and the end is not the last bus. -/
theorem rangeEnd {subordinateBus bus : UInt8} (hend : ¬ bus ≤ subordinateBus) (buses : UsedBuses) :
    subordinateBus ≠ pciMaxBus ∧
      ∀ n : UInt8, isBus buses n.toNat = true ↔
        isBus buses n.toNat = true ∨ bus ≤ n ∧ n ≤ subordinateBus := by
  have hmax : pciMaxBus.toNat = 255 := rfl
  have hbus := bus.toNat_lt
  rw [UInt8.le_iff_toNat_le] at hend
  refine ⟨fun hsub => ?_, fun n => ?_⟩
  · rw [hsub] at hend
    omega
  · rw [UInt8.le_iff_toNat_le, UInt8.le_iff_toNat_le]
    exact ⟨.inl, fun h => h.resolve_right (by omega)⟩

/-- A range that has been marked does not go up to the last bus. -/
theorem markBuses_ok {subordinateBus : UInt8} {fuel : Nat} {bus : UInt8} {buses buses' : UsedBuses}
    (h : markBuses subordinateBus fuel bus buses = .ok buses') :
    subordinateBus ≠ pciMaxBus ∧
      ∀ n : UInt8, isBus buses' n.toNat = true ↔
        isBus buses n.toNat = true ∨ bus ≤ n ∧ n ≤ subordinateBus := by
  have hmax : pciMaxBus.toNat = 255 := rfl
  induction fuel generalizing bus buses with
  | zero =>
      unfold markBuses at h
      split at h
      · cases h
      · rename_i hend
        obtain rfl := Except.ok.inj h
        exact rangeEnd hend buses
  | succ fuel ih =>
      unfold markBuses at h
      split at h
      · rename_i hbus
        obtain ⟨hsub, hmarked⟩ := ih h
        refine ⟨hsub, fun n => ?_⟩
        rw [ne_eq, ← UInt8.toNat_inj] at hsub
        rw [UInt8.le_iff_toNat_le] at hbus
        have hlt := subordinateBus.toNat_lt
        -- The counter is below the last bus, so it does not wrap around.
        have hnext : (bus + 1).toNat = bus.toNat + 1 := by
          rw [UInt8.toNat_add, UInt8.toNat_one]
          omega
        rw [hmarked n, isBus_setBus _ n.toNat_lt, Bool.or_eq_true, decide_eq_true_eq]
        simp only [UInt8.le_iff_toNat_le, hnext]
        constructor
        · rintro ((heq | hold) | hlater)
          · exact .inr (by omega)
          · exact .inl hold
          · exact .inr (by omega)
        · rintro (hold | hrange)
          · exact .inl (.inr hold)
          · by_cases heq : bus.toNat = n.toNat
            · exact .inl (.inl heq)
            · exact .inr (by omega)
      · rename_i hend
        obtain rfl := Except.ok.inj h
        exact rangeEnd hend buses

theorem markBuses_returns {subordinateBus : UInt8} (hmax : subordinateBus ≠ pciMaxBus)
    {fuel : Nat} {bus : UInt8} (hfuel : subordinateBus.toNat + 1 - bus.toNat ≤ fuel)
    (buses : UsedBuses) : (markBuses subordinateBus fuel bus buses).Returns := by
  rw [ne_eq, ← UInt8.toNat_inj] at hmax
  have hlast : pciMaxBus.toNat = 255 := rfl
  have hlt := subordinateBus.toNat_lt
  induction fuel generalizing bus buses with
  | zero =>
      unfold markBuses
      rw [if_neg]
      · exact Run.returns_ok _
      · rw [UInt8.le_iff_toNat_le]
        omega
  | succ fuel ih =>
      unfold markBuses
      split
      · rename_i hbus
        rw [UInt8.le_iff_toNat_le] at hbus
        refine ih ?_ _
        rw [UInt8.toNat_add, UInt8.toNat_one]
        omega
      · exact Run.returns_ok _

/-! ## One ancestor -/

/-- The heaps differ in the fields that the pass sets. -/
def SameButRoots (heap heap' : Heap) : Prop := ∀ a, (heap' a).eraseRoot = (heap a).eraseRoot

namespace SameButRoots

variable {heap₀ heap heap' : Heap}

theorem refl (heap : Heap) : SameButRoots heap heap := fun _ => rfl

theorem trans (h : SameButRoots heap₀ heap) (h' : SameButRoots heap heap') :
    SameButRoots heap₀ heap' := fun a => (h' a).trans (h a)

theorem modify (h : SameButRoots heap₀ heap) (a : Addr) {f : PciIoDevice → PciIoDevice}
    (hf : ∀ d, (f d).eraseRoot = d.eraseRoot) : SameButRoots heap₀ (heap.modify a f) := fun b =>
  (Heap.modify_field PciIoDevice.eraseRoot heap a b hf).trans (h b)

variable (h : SameButRoots heap heap') (a : Addr)
include h

theorem parent : (heap' a).parent = (heap a).parent := (congrArg PciIoDevice.parent (h a) :)

theorem isSegment : (heap' a).isSegment = (heap a).isSegment :=
  (congrArg PciIoDevice.isSegment (h a) :)

theorem pciType1 : (heap' a).pciType1 = (heap a).pciType1 :=
  (congrArg PciIoDevice.pciType1 (h a) :)

theorem busNumber : (heap' a).busNumber = (heap a).busNumber :=
  (congrArg PciIoDevice.busNumber (h a) :)

theorem pci : (heap' a).pci = (heap a).pci := (congrArg PciIoDevice.pci (h a) :)

omit a in
/-- The lists go through fields that the pass leaves alone. -/
theorem treeLinks {bridges : List Addr} {children : Addr → List Addr} {brk : Addr}
    (htree : TreeLinks heap bridges children brk) : TreeLinks heap' bridges children brk := by
  refine htree.congr ?_ ?_ h.parent ?_ ?_ ?_ h.pciType1 ?_ ?_
  · exact fun a => (congrArg PciIoDevice.chain (h a) :)
  · exact (congrArg PciIoDevice.lastBridge (h hostBridge) :)
  · exact fun a => (congrArg PciIoDevice.firstChild (h a) :)
  · exact fun a => (congrArg PciIoDevice.lastChild (h a) :)
  · exact fun a => (congrArg PciIoDevice.nextSibling (h a) :)
  · exact fun a => (congrArg PciIoDevice.pciDeviceID (h a) :)
  · exact (congrArg PciIoDevice.nextPciDeviceID (h hostBridge) :)

end SameButRoots

/-- The record uses a bus: it is on it, or it is a bridge to it. -/
def PciIoDevice.UsesBus (d : PciIoDevice) (n : UInt8) : Prop :=
  d.busNumber = n ∨ d.pciType1 = true ∧ d.pci.secondaryBus ≤ n ∧ n ≤ d.pci.subordinateBus

/-- The record's range of buses goes up to the last one. -/
def PciIoDevice.EndsAtMaxBus (d : PciIoDevice) : Prop :=
  d.pciType1 = true ∧ d.pci.subordinateBus = pciMaxBus

theorem SameButRoots.usesBus {heap heap' : Heap} (h : SameButRoots heap heap') (a : Addr)
    (n : UInt8) : (heap' a).UsesBus n ↔ (heap a).UsesBus n := by
  unfold PciIoDevice.UsesBus
  rw [h.busNumber, h.pciType1, h.pci]

theorem SameButRoots.endsAtMaxBus {heap heap' : Heap} (h : SameButRoots heap heap') (a : Addr) :
    (heap' a).EndsAtMaxBus ↔ (heap a).EndsAtMaxBus := by
  unfold PciIoDevice.EndsAtMaxBus
  rw [h.pciType1, h.pci]

/-- `SetBus (c->UsedBuses, b->BusNumber)`, and before it the stores to `b`. -/
def markBusNumber (b c : Addr) (heap : Heap) : Heap :=
  let heap := heap.modify b (.setSegmentDevice (some c))
  heap.modify c fun d => d.setUsedBuses (setBus d.usedBuses (heap b).busNumber.toNat)

/-- `if (!b->PciRootBridgeIo && c->PciRootBridgeIo) b->PciRootBridgeIo = c->PciRootBridgeIo`. -/
def inheritRootBridgeIo (b c : Addr) (heap : Heap) : Heap :=
  if (heap b).pciRootBridgeIo = none ∧ (heap c).pciRootBridgeIo ≠ none then
    heap.modify b (.setPciRootBridgeIo (heap c).pciRootBridgeIo)
  else heap

section visit

variable (b c : Addr) (heap : Heap)

theorem visitAncestor_eq (fuel : Nat) :
    visitAncestor fuel b c heap =
      let heap := inheritRootBridgeIo b c heap
      if (heap c).isSegment then
        let heap := markBusNumber b c heap
        if (heap b).pciType1 then do
          let usedBuses ← markBuses (heap b).pci.subordinateBus fuel (heap b).pci.secondaryBus
            (heap c).usedBuses
          .ok (heap.modify c (.setUsedBuses usedBuses))
        else .ok heap
      else .ok heap := rfl

theorem inheritRootBridgeIo_same : SameButRoots heap (inheritRootBridgeIo b c heap) := by
  unfold inheritRootBridgeIo
  split
  · exact (SameButRoots.refl heap).modify b fun _ => rfl
  · exact .refl heap

theorem inheritRootBridgeIo_usedBuses (a : Addr) :
    (inheritRootBridgeIo b c heap a).usedBuses = (heap a).usedBuses := by
  unfold inheritRootBridgeIo
  split
  · exact Heap.modify_field PciIoDevice.usedBuses heap b a fun _ => rfl
  · rfl

theorem markBusNumber_same : SameButRoots heap (markBusNumber b c heap) := by
  have hsegment := (SameButRoots.refl heap).modify b
    (PciIoDevice.eraseRoot_setSegmentDevice · (some c))
  exact hsegment.modify c fun d => PciIoDevice.eraseRoot_setUsedBuses d _

theorem markBusNumber_usedBuses (a : Addr) :
    (markBusNumber b c heap a).usedBuses =
      if a = c then setBus (heap a).usedBuses (heap b).busNumber.toNat
      else (heap a).usedBuses := by
  have hold : ∀ a, (heap.modify b (.setSegmentDevice (some c)) a).usedBuses = (heap a).usedBuses :=
    fun a => Heap.modify_field PciIoDevice.usedBuses heap b a fun _ => rfl
  have hbus : (heap.modify b (.setSegmentDevice (some c)) b).busNumber = (heap b).busNumber :=
    Heap.modify_field PciIoDevice.busNumber heap b b fun _ => rfl
  rw [markBusNumber, Heap.modify_apply, hbus]
  split
  · exact congrArg (setBus · _) (hold a)
  · exact hold a

end visit

/-- What the inner body does, if it returns. -/
structure VisitedAncestor (b c : Addr) (heap heap' : Heap) : Prop where
  same : SameButRoots heap heap'
  marked : ∀ a (n : UInt8), isBus (heap' a).usedBuses n.toNat = true ↔
    isBus (heap a).usedBuses n.toNat = true ∨
      a = c ∧ (heap c).isSegment = true ∧ (heap b).UsesBus n

theorem visitAncestor_ok {fuel : Nat} {b c : Addr} {heap heap' : Heap}
    (h : visitAncestor fuel b c heap = .ok heap') :
    VisitedAncestor b c heap heap' ∧ ((heap c).isSegment = true → ¬ (heap b).EndsAtMaxBus) := by
  rw [visitAncestor_eq] at h
  have hsame₁ := inheritRootBridgeIo_same b c heap
  have hbuses₁ := inheritRootBridgeIo_usedBuses b c heap
  generalize inheritRootBridgeIo b c heap = heap₁ at h hsame₁ hbuses₁
  dsimp only at h
  rw [hsame₁.isSegment] at h
  by_cases hsegment : (heap c).isSegment = true
  · rw [if_pos hsegment] at h
    have hsame₂ := hsame₁.trans (markBusNumber_same b c heap₁)
    have hbuses₂ := markBusNumber_usedBuses b c heap₁
    generalize markBusNumber b c heap₁ = heap₂ at h hsame₂ hbuses₂
    rw [hsame₁.busNumber] at hbuses₂
    rw [hsame₂.pciType1, hsame₂.pci] at h
    -- The bus of `b` itself.
    have hmarked₂ : ∀ a (n : UInt8), isBus (heap₂ a).usedBuses n.toNat = true ↔
        isBus (heap a).usedBuses n.toNat = true ∨ a = c ∧ (heap b).busNumber = n := by
      intro a n
      rw [hbuses₂, hbuses₁]
      split
      · rename_i hac
        rw [isBus_setBus _ n.toNat_lt, Bool.or_eq_true, decide_eq_true_eq, UInt8.toNat_inj]
        simp [hac, or_comm]
      · rename_i hac
        simp [hac]
    by_cases hbridge : (heap b).pciType1 = true
    · rw [if_pos hbridge, Run.bind_eq_ok] at h
      obtain ⟨usedBuses, hmark, h⟩ := h
      obtain rfl := Except.ok.inj h
      obtain ⟨hmax, hmarked⟩ := markBuses_ok hmark
      refine ⟨⟨hsame₂.modify c fun _ => rfl, fun a n => ?_⟩, fun _ hends => hmax hends.2⟩
      rw [Heap.modify_apply]
      by_cases hac : a = c
      · subst hac
        rw [if_pos rfl]
        refine (hmarked n).trans ?_
        rw [hmarked₂]
        simp [hsegment, hbridge, PciIoDevice.UsesBus, or_assoc]
      · rw [if_neg hac, hmarked₂]
        simp [hac]
    · rw [if_neg hbridge] at h
      obtain rfl := Except.ok.inj h
      refine ⟨⟨hsame₂, fun a n => ?_⟩, fun _ hends => hbridge hends.1⟩
      rw [hmarked₂]
      simp [hsegment, hbridge, PciIoDevice.UsesBus]
  · rw [if_neg hsegment] at h
    obtain rfl := Except.ok.inj h
    refine ⟨⟨hsame₁, fun a n => ?_⟩, fun hseg => absurd hseg hsegment⟩
    rw [hbuses₁]
    simp [hsegment]

theorem visitAncestor_returns {fuel : Nat} (hfuel : 256 ≤ fuel) {b c : Addr} {heap : Heap}
    (hends : (heap c).isSegment = true → ¬ (heap b).EndsAtMaxBus) :
    (visitAncestor fuel b c heap).Returns := by
  rw [visitAncestor_eq]
  have hsame₁ := inheritRootBridgeIo_same b c heap
  generalize inheritRootBridgeIo b c heap = heap₁ at hsame₁
  dsimp only
  rw [hsame₁.isSegment]
  by_cases hsegment : (heap c).isSegment = true
  · rw [if_pos hsegment]
    have hsame₂ := hsame₁.trans (markBusNumber_same b c heap₁)
    generalize markBusNumber b c heap₁ = heap₂ at hsame₂
    rw [hsame₂.pciType1, hsame₂.pci]
    by_cases hbridge : (heap b).pciType1 = true
    · rw [if_pos hbridge]
      have hmax : (heap b).pci.subordinateBus ≠ pciMaxBus := fun hsub =>
        hends hsegment ⟨hbridge, hsub⟩
      have hlt := (heap b).pci.subordinateBus.toNat_lt
      obtain ⟨usedBuses, hmark⟩ := @markBuses_returns _ hmax fuel (heap b).pci.secondaryBus
        (by omega) (heap₂ c).usedBuses
      rw [hmark]
      exact Run.returns_ok _
    · rw [if_neg hbridge]
      exact Run.returns_ok _
  · rw [if_neg hsegment]
    exact Run.returns_ok _

/-! ## All ancestors, and all records -/

/-- What is true when the ancestors `done` of `b` have been visited. -/
structure VisitedAncestors (b : Addr) (heap₀ : Heap) (done : List Addr) (heap : Heap) : Prop where
  same : SameButRoots heap₀ heap
  marked : ∀ a (n : UInt8), isBus (heap a).usedBuses n.toNat = true ↔
    isBus (heap₀ a).usedBuses n.toNat = true ∨
      a ∈ done ∧ (heap₀ a).isSegment = true ∧ (heap₀ b).UsesBus n
  ends : ∀ c ∈ done, (heap₀ c).isSegment = true → ¬ (heap₀ b).EndsAtMaxBus

theorem VisitedAncestors.step {fuel : Nat} {b c : Addr} {heap₀ heap heap' : Heap}
    {done : List Addr} (h : VisitedAncestors b heap₀ done heap)
    (hvisit : visitAncestor fuel b c heap = .ok heap') :
    VisitedAncestors b heap₀ (done ++ [c]) heap' := by
  obtain ⟨⟨hsame, hmarked⟩, hends⟩ := visitAncestor_ok hvisit
  refine ⟨h.same.trans hsame, fun a n => ?_, fun a ha => ?_⟩
  · rw [hmarked, h.marked, h.same.isSegment, h.same.usesBus, List.mem_append,
      List.mem_singleton]
    constructor
    · rintro ((hold | ⟨hdone, hrest⟩) | ⟨rfl, hrest⟩)
      · exact .inl hold
      · exact .inr ⟨.inl hdone, hrest⟩
      · exact .inr ⟨.inr rfl, hrest⟩
    · rintro (hold | ⟨hdone | rfl, hrest⟩)
      · exact .inl (.inl hold)
      · exact .inl (.inr ⟨hdone, hrest⟩)
      · exact .inr ⟨rfl, hrest⟩
  · rcases List.mem_append.mp ha with ha | ha
    · exact h.ends a ha
    · obtain rfl := List.mem_singleton.mp ha
      rw [h.same.isSegment, h.same.endsAtMaxBus] at hends
      exact hends

/-- The pointers up from each record. -/
def Ancestors (heap : Heap) (array : List Addr) (ancestors : Addr → List Addr) : Prop :=
  ∀ b ∈ array, Linked (fun a => (heap a).parent) (heap b).parent (ancestors b)

/-- What is true when the records `done` of the array have been visited. -/
structure VisitedDevices (ancestors : Addr → List Addr) (heap₀ : Heap) (done : List Addr)
    (heap : Heap) : Prop where
  same : SameButRoots heap₀ heap
  marked : ∀ a (n : UInt8), isBus (heap a).usedBuses n.toNat = true ↔
    isBus (heap₀ a).usedBuses n.toNat = true ∨
      (heap₀ a).isSegment = true ∧ ∃ b ∈ done, a ∈ ancestors b ∧ (heap₀ b).UsesBus n
  ends : ∀ b ∈ done, ∀ c ∈ ancestors b, (heap₀ c).isSegment = true → ¬ (heap₀ b).EndsAtMaxBus

section devices

variable {heap₀ heap heap' : Heap} {array done : List Addr} {ancestors : Addr → List Addr}
  {fuel : Nat} {b : Addr}

theorem VisitedAncestors.start (heap : Heap) : VisitedAncestors b heap [] heap :=
  ⟨.refl heap, fun _ _ => by simp, by simp⟩

theorem getRootOfDevice_ok {l : List Addr}
    (hl : Linked (fun a => (heap a).parent) (heap b).parent l)
    (h : getRootOfDevice fuel heap b = .ok heap') : VisitedAncestors b heap l heap' :=
  forEach_visited (f := fun a => (heap a).parent) (I := VisitedAncestors b heap)
    (fun _ _ hdone a _ => hdone.same.parent a) (fun _ _ _ _ _ hdone hvisit => hdone.step hvisit)
    (.start heap) hl h

theorem getRootOfDevice_returns {l : List Addr}
    (hl : Linked (fun a => (heap a).parent) (heap b).parent l) (hfuel : 256 ≤ fuel)
    (hlength : l.length ≤ fuel)
    (hends : ∀ c ∈ l, (heap c).isSegment = true → ¬ (heap b).EndsAtMaxBus) :
    (getRootOfDevice fuel heap b).Returns := by
  refine forEach_visits (f := fun a => (heap a).parent) (I := VisitedAncestors b heap)
    (fun _ _ hdone a _ => hdone.same.parent a) (fun _ _ _ _ _ hdone hvisit => hdone.step hvisit)
    (fun done c hc heap₁ hdone => visitAncestor_returns hfuel ?_) (.start heap) hl hlength
  rw [hdone.same.isSegment, hdone.same.endsAtMaxBus]
  exact hends c hc

theorem VisitedDevices.start (ancestors : Addr → List Addr) (heap : Heap) :
    VisitedDevices ancestors heap [] heap :=
  ⟨.refl heap, fun _ _ => by simp, by simp⟩

theorem Ancestors.of_same (h : Ancestors heap₀ array ancestors)
    (hsame : SameButRoots heap₀ heap) (hb : b ∈ array) :
    Linked (fun a => (heap a).parent) (heap b).parent (ancestors b) := by
  rw [hsame.parent]
  exact (h b hb).congr fun a _ => hsame.parent a

theorem VisitedDevices.step (hancestors : Ancestors heap₀ array ancestors) (hb : b ∈ array)
    (h : VisitedDevices ancestors heap₀ done heap)
    (hvisit : getRootOfDevice fuel heap b = .ok heap') :
    VisitedDevices ancestors heap₀ (done ++ [b]) heap' := by
  obtain ⟨hsame, hmarked, hends⟩ := getRootOfDevice_ok (hancestors.of_same h.same hb) hvisit
  refine ⟨h.same.trans hsame, fun a n => ?_, fun c hc => ?_⟩
  · rw [hmarked, h.marked, h.same.isSegment, h.same.usesBus]
    constructor
    · rintro ((hold | ⟨hsegment, c, hc, hrest⟩) | ⟨ha, hsegment, huses⟩)
      · exact .inl hold
      · exact .inr ⟨hsegment, c, by simp [hc], hrest⟩
      · exact .inr ⟨hsegment, b, by simp, ha, huses⟩
    · rintro (hold | ⟨hsegment, c, hc, ha, huses⟩)
      · exact .inl (.inl hold)
      · rcases List.mem_append.mp hc with hc | hc
        · exact .inl (.inr ⟨hsegment, c, hc, ha, huses⟩)
        · obtain rfl := List.mem_singleton.mp hc
          exact .inr ⟨ha, hsegment, huses⟩
  · rcases List.mem_append.mp hc with hc | hc
    · exact h.ends c hc
    · obtain rfl := List.mem_singleton.mp hc
      intro d hd
      have := hends d hd
      rwa [h.same.isSegment, h.same.endsAtMaxBus] at this

theorem getRootOfEachDevice_ok (hancestors : Ancestors heap array ancestors)
    (h : getRootOfEachDevice fuel heap array = .ok heap') :
    VisitedDevices ancestors heap array heap' :=
  foldlM_visited (I := VisitedDevices ancestors heap)
    (fun _ _ hb _ _ hdone hvisit => hdone.step hancestors hb hvisit) (.start ancestors heap) h

theorem getRootOfEachDevice_returns (hancestors : Ancestors heap array ancestors)
    (hfuel : 256 ≤ fuel) (hlength : ∀ b ∈ array, (ancestors b).length ≤ fuel)
    (hends : ∀ b ∈ array, ∀ c ∈ ancestors b, (heap c).isSegment = true →
      ¬ (heap b).EndsAtMaxBus) : (getRootOfEachDevice fuel heap array).Returns := by
  refine foldlM_visits (I := VisitedDevices ancestors heap)
    (fun _ _ hb _ _ hdone hvisit => hdone.step hancestors hb hvisit)
    (fun done b hb heap₁ hdone => ?_) (.start ancestors heap)
  refine getRootOfDevice_returns (hancestors.of_same hdone.same hb) hfuel (hlength b hb) ?_
  intro c hc
  rw [hdone.same.isSegment, hdone.same.endsAtMaxBus]
  exact hends b hb c hc

end devices

/-- Whatever the pointers up lead to, the pass sets only its own fields. -/
theorem getRootOfEachDevice_same {fuel : Nat} {heap heap' : Heap} {array : List Addr}
    (h : getRootOfEachDevice fuel heap array = .ok heap') : SameButRoots heap heap' := by
  unfold getRootOfEachDevice at h
  induction array generalizing heap with
  | nil =>
      obtain rfl := Except.ok.inj h
      exact .refl heap
  | cons b array ih =>
      rw [List.foldlM_cons, Run.bind_eq_ok] at h
      obtain ⟨heap₁, hdevice, h⟩ := h
      have hfirst : SameButRoots heap heap₁ :=
        forEach_invariant (I := fun _ heap₁ => SameButRoots heap heap₁)
          (fun _ _ _ hsame hvisit => hsame.trans (visitAncestor_ok hvisit).1.same) (.refl heap)
          hdevice
      exact hfirst.trans (ih h)

/-- `b` is a descendant of `c`. -/
def Descendant (heap : Heap) (c b : Addr) : Prop :=
  TransGen (ParentStep fun a => (heap a).parent) b c

/-- The nodes above a node of a tree. -/
theorem mem_iff_descendant {heap : Heap} {b : Addr} {l : List Addr}
    (hl : Linked (fun a => (heap a).parent) (heap b).parent l) (c : Addr) :
    c ∈ l ↔ Descendant heap c b := by
  induction l generalizing b with
  | nil =>
      refine iff_of_false (by simp) fun h => ?_
      obtain ⟨d, hd, -⟩ := TransGen.head'_iff.mp h
      have hd : (heap b).parent = some d := hd
      rw [hd] at hl
      cases hl
  | cons d l ih =>
      obtain ⟨hd, hl⟩ := hl
      have hstep : ParentStep (fun a => (heap a).parent) b d := hd
      rw [List.mem_cons, ih hl]
      constructor
      · rintro (rfl | hc)
        · exact .single hstep
        · exact .head hstep hc
      · intro hc
        obtain ⟨d', hd', hc⟩ := TransGen.head'_iff.mp hc
        obtain rfl : d = d' := Option.some.inj (Eq.trans (Eq.symm hd) hd')
        rcases reflTransGen_iff_eq_or_transGen.mp hc with rfl | hc
        · exact .inl rfl
        · exact .inr hc

/-- Bus `n` is marked in a root bridge exactly if a descendant of it uses the bus. -/
def MarksUsedBuses (heap heap' : Heap) (array : List Addr) : Prop :=
  ∀ c ∈ array, (heap c).isSegment = true → ∀ n : UInt8,
    isBus (heap' c).usedBuses n.toNat = true ↔
      ∃ b ∈ array, Descendant heap c b ∧ (heap b).UsesBus n

/-- The pass ends with the right buses marked exactly if no bridge below a root bridge
has a range that goes up to the last bus. -/
theorem getRootOfEachDevice_iff {heap : Heap} {array : List Addr}
    (htree : IsDeviceTree heap array)
    (hclear : ∀ c ∈ array, (heap c).isSegment = true →
      (heap c).usedBuses = Vector.replicate 8 0) :
    (∃ fuel₁, ∀ fuel ≥ fuel₁, ∃ heap', getRootOfEachDevice fuel heap array = .ok heap' ∧
      MarksUsedBuses heap heap' array) ↔
    ∀ b ∈ array, (heap b).pciType1 = true →
      (∃ c, Descendant heap c b ∧ (heap c).isSegment = true) →
        (heap b).pci.subordinateBus ≠ pciMaxBus := by
  have hexists : ∀ b, ∃ l, b ∈ array → Linked (fun a => (heap a).parent) (heap b).parent l := by
    intro b
    by_cases hb : b ∈ array
    · obtain ⟨l, hl, -⟩ := htree.climbs b hb
      cases l with
      | nil =>
          obtain rfl : b = hostBridge := Option.some.inj hl.1
          exact ⟨[], fun _ => hl.2⟩
      | cons a l =>
          obtain ⟨ha, hl⟩ := hl
          obtain rfl := Option.some.inj ha
          exact ⟨l ++ [hostBridge], fun _ => hl⟩
    · exact ⟨[], fun h => absurd h hb⟩
  choose ancestors hancestors using hexists
  have hancestors : Ancestors heap array ancestors := hancestors
  constructor
  · rintro ⟨fuel, hreturns⟩ b hb hbridge ⟨c, hc, hsegment⟩ hmax
    obtain ⟨heap', hok, -⟩ := hreturns fuel (Nat.le_refl _)
    exact (getRootOfEachDevice_ok hancestors hok).ends b hb c
      ((mem_iff_descendant (hancestors b hb) c).mpr hc) hsegment ⟨hbridge, hmax⟩
  · intro hends
    -- The fuel is enough for the longest way up and for all buses.
    let longest := array.toFinset.sup fun b => (ancestors b).length
    have hlongest : ∀ b ∈ array, (ancestors b).length ≤ longest := fun b hb =>
      Finset.le_sup (f := fun b => (ancestors b).length) (List.mem_toFinset.mpr hb)
    refine ⟨256 + longest, fun fuel hfuel => ?_⟩
    have hreturns : (getRootOfEachDevice fuel heap array).Returns := by
      refine getRootOfEachDevice_returns hancestors (by omega) (fun b hb => ?_) ?_
      · have := hlongest b hb
        omega
      · intro b hb c hc hsegment hmax
        exact hends b hb hmax.1 ⟨c, (mem_iff_descendant (hancestors b hb) c).mp hc, hsegment⟩ hmax.2
    obtain ⟨heap', hok⟩ := hreturns
    have hvisited := getRootOfEachDevice_ok hancestors hok
    refine ⟨heap', hok, fun c hc hsegment n => ?_⟩
    have hzero : isBus (Vector.replicate 8 0) n.toNat = false := by
      have hn := n.toNat_lt
      rw [isBus_eq_testBit, Vector.getElem?_replicate, if_pos (by omega), Option.getD_some]
      exact Nat.zero_testBit _
    rw [hvisited.marked, hclear c hc hsegment, hzero]
    constructor
    · rintro (hfalse | ⟨-, b, hb, hbc, huses⟩)
      · cases hfalse
      · exact ⟨b, hb, (mem_iff_descendant (hancestors b hb) c).mp hbc, huses⟩
    · rintro ⟨b, hb, hbc, huses⟩
      exact .inr ⟨hsegment, b, hb, (mem_iff_descendant (hancestors b hb) c).mpr hbc, huses⟩

/-- A root bridge and a bridge to the buses from 1 to the one given. -/
def bridgeTo (subordinateBus : UInt8) : Heap
  | 0 => { pciType1 := true, firstChild := some 1, lastChild := some 1 }
  | 1 =>
      { parent := some hostBridge, isSegment := true, pciType1 := true
        firstChild := some 2, lastChild := some 2 }
  | 2 =>
      { parent := some 1, pciType1 := true
        pci := { headerType := 1, secondaryBus := 1, subordinateBus := subordinateBus } }
  | _ => {}

theorem isDeviceTree_bridgeTo (subordinateBus : UInt8) :
    IsDeviceTree (bridgeTo subordinateBus) [1, 2] := by
  constructor
  · intro b hb
    rcases List.mem_cons.mp hb with rfl | hb
    · exact ⟨[1], ⟨rfl, rfl, rfl⟩, by decide⟩
    · obtain rfl := List.mem_singleton.mp hb
      exact ⟨[2, 1], ⟨rfl, rfl, rfl, rfl⟩, by decide⟩
  · intro b hb
    rcases List.mem_cons.mp hb with rfl | hb
    · exact ⟨0, by decide, rfl⟩
    · obtain rfl := List.mem_singleton.mp hb
      exact ⟨1, by decide, rfl⟩
  · intro p hp
    have hcases : p = 0 ∨ p = 1 ∨ p = 2 := by simpa [hostBridge] using hp
    have hparent₁ : (bridgeTo subordinateBus 1).parent = some 0 := rfl
    have hparent₂ : (bridgeTo subordinateBus 2).parent = some 1 := rfl
    rcases hcases with rfl | rfl | rfl
    · exact ⟨[1], ⟨rfl, rfl⟩, by simp [hparent₁, hparent₂]⟩
    · exact ⟨[2], ⟨rfl, rfl⟩, by simp [hparent₁, hparent₂]⟩
    · exact ⟨[], rfl, by simp [hparent₁, hparent₂]⟩

theorem getRootOfEachDevice_iff_bridgeTo :
    ∃ fuel₁, ∀ fuel ≥ fuel₁, ∃ heap',
      getRootOfEachDevice fuel (bridgeTo 2) [1, 2] = .ok heap' ∧
        MarksUsedBuses (bridgeTo 2) heap' [1, 2] := by
  refine (getRootOfEachDevice_iff (isDeviceTree_bridgeTo 2) ?_).mpr ?_
  · intro c hc _
    rcases List.mem_cons.mp hc with rfl | hc
    · rfl
    · obtain rfl := List.mem_singleton.mp hc
      rfl
  · rintro b hb - ⟨c, hdescendant, hsegment⟩
    rcases List.mem_cons.mp hb with rfl | hb
    · -- Above the root bridge there is only the host bridge.
      have hlinked : Linked (fun a => (bridgeTo 2 a).parent) (bridgeTo 2 1).parent [0] := ⟨rfl, rfl⟩
      have hc := (mem_iff_descendant hlinked c).mpr hdescendant
      obtain rfl := List.mem_singleton.mp hc
      cases hsegment
    · obtain rfl := List.mem_singleton.mp hb
      decide

/-- With a range up to the last bus the pass never returns. -/
theorem getRootOfEachDevice_bridgeTo_maxBus :
    IsDeviceTree (bridgeTo 255) [1, 2] ∧
      ∀ fuel, ¬ (getRootOfEachDevice fuel (bridgeTo 255) [1, 2]).Returns := by
  refine ⟨isDeviceTree_bridgeTo 255, ?_⟩
  rintro fuel ⟨heap', hok⟩
  have hancestors : Ancestors (bridgeTo 255) [1, 2] fun b => if b = 1 then [0] else [1, 0] := by
    intro b hb
    rcases List.mem_cons.mp hb with rfl | hb
    · exact ⟨rfl, rfl⟩
    · obtain rfl := List.mem_singleton.mp hb
      exact ⟨rfl, rfl, rfl⟩
  exact (getRootOfEachDevice_ok hancestors hok).ends 2 (by decide) 1 (by decide) rfl ⟨rfl, rfl⟩

end PciMisc
end EfiApps
