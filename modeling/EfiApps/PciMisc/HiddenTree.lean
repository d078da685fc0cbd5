import EfiApps.Lib.Worklist
import EfiApps.PciMisc.HiddenFunctions
import Mathlib.Data.Finite.Prod
import Mathlib.Data.Fintype.Pigeonhole
import Mathlib.Data.Nat.SuccPred
import Mathlib.Order.SuccPred.Relation

/-!
# The tree of hidden functions

What hardware that does not change shows behind a bridge depends on the bus that the bridge
is given for the search: its own bus, if `VerifyBuses` accepts that, or else one out of the
unused range, as far down as the bridge is below its root bridge.  So the functions that the
search can come to form a tree that is there before the search.

The unused range has an end, and below it only the bridges count that are accepted as they
are.  There are finitely many places for these, and what is behind a bridge at a place is
always the same.  So the tree is finite unless a bridge leads back to its own place.
-/

namespace EfiApps
namespace PciMisc

open Relation

/-- A bridge as the search sees it: its record, the header of the bridge above it, how many
bridges there are up to the root bridge, and the unused range of the root bridge, if there is
one above it. -/
structure BridgeView where
  device : PciIoDevice
  parentPci : PciHeader
  level : Nat
  unused : Option (UInt8 × UInt8)

namespace BridgeView

/-- `VerifyBuses` leaves the buses of the bridge alone. -/
def Accepted (v : BridgeView) : Prop :=
  v.device.isSegment = true ∨
    v.device.pci.secondaryBus ≠ 0 ∧ v.device.pci.subordinateBus ≠ 0 ∧
      v.parentPci.secondaryBus ≤ v.device.busNumber ∧
      v.device.busNumber ≤ v.parentPci.subordinateBus

instance (v : BridgeView) : Decidable v.Accepted :=
  inferInstanceAs (Decidable (_ ∨ _ ∧ _ ∧ _ ∧ _))

/-- At this level the bus numbers out of the unused range go beyond it, or to the last bus. -/
def TooFewBuses (unused : UInt8 × UInt8) (level : Nat) : Prop :=
  unused.1.toNat + level - 1 > unused.2.toNat ∨ unused.1.toNat + level - 1 ≥ 255

instance (unused : UInt8 × UInt8) (level : Nat) : Decidable (TooFewBuses unused level) :=
  inferInstanceAs (Decidable (_ ∨ _))

/-- The bus that a move gives the bridge, if there is one for it. -/
def movedBus (v : BridgeView) : Option UInt8 :=
  v.unused.bind fun unused =>
    if TooFewBuses unused v.level then none
    else some (.ofNat (unused.1.toNat + (v.level - 1)))

/-- The bus that is behind the bridge while it is searched, if it is. -/
def searchedBus (v : BridgeView) : Option UInt8 :=
  if v.Accepted then some v.device.pci.secondaryBus else v.movedBus

/-- `RenumberBuses` is called for the bridge, and there is no root bridge to take buses from. -/
def Rootless (v : BridgeView) : Prop := v.unused = none ∧ ¬ v.Accepted

instance (v : BridgeView) : Decidable v.Rootless := inferInstanceAs (Decidable (_ ∧ _))

/-- The function `f` on that bus. -/
def behind (hw : ConfigSpace) (v : BridgeView) (bus : UInt8) (f : UInt8 × UInt8) : BridgeView where
  device := withHeader hw (v.device.setBridgeBus .secondary bus) f.1 f.2
  parentPci := v.device.pci
  level := v.level + 1
  unused := v.unused

/-- The functions that the search attaches to the bridge. -/
def functions (hw : ConfigSpace) (v : BridgeView) : List BridgeView :=
  match v.searchedBus with
  | none => []
  | some bus => (scannedFunctions hw (v.device.setBridgeBus .secondary bus)).map (v.behind hw bus)

/-- The bridges among them. -/
def bridges (hw : ConfigSpace) (v : BridgeView) : List BridgeView :=
  (v.functions hw).filter fun c => c.device.pciType1

/-- No capability list of those functions is a ring. -/
def CapabilityListsEnd (hw : ConfigSpace) (v : BridgeView) : Prop :=
  ∀ c ∈ v.functions hw, CapabilityListEnds hw c.device pciCapabilityIdPciExp 0

/-- The search gets past the bridge. -/
def Passable (hw : ConfigSpace) (v : BridgeView) : Prop :=
  ¬ v.Rootless ∧ v.CapabilityListsEnd hw

/-- The search goes from one bridge to a bridge behind it that it leaves as it is. -/
def AcceptedStep (hw : ConfigSpace) (v v' : BridgeView) : Prop :=
  v' ∈ v.bridges hw ∧ v'.Accepted

/-- Bus, device and function. -/
def place (v : BridgeView) : UInt8 × UInt8 × UInt8 :=
  (v.device.busNumber, v.device.deviceNumber, v.device.functionNumber)

/-- The search leaves the bridge as it is, and behind such bridges comes back to its place. -/
def OnBusRing (hw : ConfigSpace) (v : BridgeView) : Prop :=
  v.Accepted ∧ ∃ v', TransGen (AcceptedStep hw) v v' ∧ v'.place = v.place

/-- Behind the bridge the search comes to a ring. -/
def EntersRing (hw : ConfigSpace) (v : BridgeView) : Prop :=
  ∃ v', TransGen (Spawns (bridges hw)) v v' ∧ v'.OnBusRing hw

/-! ## What is behind a bridge -/

variable {hw : ConfigSpace} {v v' : BridgeView}

theorem mem_functions :
    v' ∈ v.functions hw ↔ ∃ bus f, v.searchedBus = some bus ∧
      f ∈ scannedFunctions hw (v.device.setBridgeBus .secondary bus) ∧
      v' = v.behind hw bus f := by
  unfold functions
  cases hbus : v.searchedBus with
  | none => simp
  | some bus =>
      simp only [List.mem_map, Option.some.injEq]
      constructor
      · rintro ⟨f, hf, rfl⟩
        exact ⟨bus, f, rfl, hf, rfl⟩
      · rintro ⟨_, f, rfl, hf, rfl⟩
        exact ⟨f, hf, rfl⟩

theorem mem_bridges : v' ∈ v.bridges hw ↔ v' ∈ v.functions hw ∧ v'.device.pciType1 = true :=
  List.mem_filter

/-- What is the same all the way down. -/
theorem inherited (h : ReflTransGen (Spawns (bridges hw)) v v') :
    v'.device.pciRootBridgeIo = v.device.pciRootBridgeIo ∧
      v'.device.segmentNumber = v.device.segmentNumber := by
  have hsecondary : ∀ (d : PciIoDevice) (bus : UInt8),
      (d.setBridgeBus .secondary bus).pciRootBridgeIo = d.pciRootBridgeIo ∧
        (d.setBridgeBus .secondary bus).segmentNumber = d.segmentNumber := fun _ _ => ⟨rfl, rfl⟩
  induction h with
  | refl => exact ⟨rfl, rfl⟩
  | @tail u w _ hstep ih =>
      obtain ⟨bus, f, -, -, rfl⟩ := mem_functions.mp (mem_bridges.mp hstep).1
      obtain ⟨hio, hsegment⟩ := hsecondary u.device bus
      exact ⟨hio.trans ih.1, hsegment.trans ih.2⟩

/-- The record is what the hardware shows at its place. -/
def FromHardware (hw : ConfigSpace) (v : BridgeView) : Prop :=
  ∃ (r : PciIoDevice) (f : UInt8 × UInt8), v.device = withHeader hw r f.1 f.2

theorem fromHardware_of_mem (h : v' ∈ v.bridges hw) : v'.FromHardware hw := by
  obtain ⟨bus, f, -, -, rfl⟩ := mem_functions.mp (mem_bridges.mp h).1
  exact ⟨_, f, rfl⟩

theorem fromHardware_of_reaches (h : TransGen (Spawns (bridges hw)) v v') :
    v'.FromHardware hw := by
  obtain ⟨u, -, hstep⟩ := TransGen.tail'_iff.mp h
  exact fromHardware_of_mem hstep

/-- At one place the hardware shows one record. -/
theorem device_eq_of_place (h : v.FromHardware hw) (h' : v'.FromHardware hw)
    (hio : v'.device.pciRootBridgeIo = v.device.pciRootBridgeIo)
    (hsegment : v'.device.segmentNumber = v.device.segmentNumber) (hplace : v'.place = v.place) :
    v'.device = v.device := by
  obtain ⟨r, f, hr⟩ := h
  obtain ⟨r', f', hr'⟩ := h'
  have hbehind : PciMisc.behind r' f'.1 f'.2 = PciMisc.behind r f.1 f.2 := by
    unfold place at hplace
    rw [hr, hr'] at hio hsegment hplace
    obtain ⟨hbus, hdevice, hfunction⟩ : r'.pci.secondaryBus = r.pci.secondaryBus ∧
        f'.1 = f.1 ∧ f'.2 = f.2 := by
      simp only [Prod.mk.injEq] at hplace
      exact hplace
    have hio : r'.pciRootBridgeIo = r.pciRootBridgeIo := hio
    have hsegment : r'.segmentNumber = r.segmentNumber := hsegment
    unfold PciMisc.behind
    rw [hio, hsegment, hbus, hdevice, hfunction]
  rw [hr, hr', withHeader, withHeader, headerOf, headerOf, hbehind]

/-! ## Going round a ring -/

/-- Two bridges with one record that the search leaves as it is. -/
structure Twins (v v' : BridgeView) : Prop where
  device : v'.device = v.device
  accepted : v.Accepted
  accepted' : v'.Accepted

/-- What is behind one of them is behind the other. -/
theorem Twins.step {w : BridgeView} (h : Twins v v') (hstep : AcceptedStep hw v w) :
    ∃ w', AcceptedStep hw v' w' ∧ Twins w w' := by
  obtain ⟨hmem, haccepted⟩ := hstep
  obtain ⟨hmem, htype⟩ := mem_bridges.mp hmem
  obtain ⟨bus, f, hbus, hf, rfl⟩ := mem_functions.mp hmem
  have hbus' : v'.searchedBus = some bus := by
    rw [searchedBus, if_pos h.accepted] at hbus
    rw [searchedBus, if_pos h.accepted', h.device, hbus]
  have hdevice : (v'.behind hw bus f).device = (v.behind hw bus f).device := by
    unfold behind
    rw [h.device]
  have hparent : (v'.behind hw bus f).parentPci = (v.behind hw bus f).parentPci :=
    congrArg PciIoDevice.pci h.device
  have haccepted' : (v'.behind hw bus f).Accepted := by
    unfold Accepted at haccepted ⊢
    rw [hdevice, hparent]
    exact haccepted
  refine ⟨v'.behind hw bus f, ⟨?_, haccepted'⟩, hdevice, haccepted, haccepted'⟩
  rw [mem_bridges, hdevice]
  refine ⟨mem_functions.mpr ⟨bus, f, hbus', ?_, rfl⟩, htype⟩
  rw [h.device]
  exact hf

/-- Below a bridge that leads to a twin the tree has no end. -/
theorem not_acc_of_twins (hreach : TransGen (AcceptedStep hw) v v') (htwins : Twins v v') :
    ¬ Acc (flip (Spawns (bridges hw))) v := by
  intro hacc
  induction hacc generalizing v' with
  | intro v _ ih =>
      obtain ⟨w, hw, hrest⟩ := TransGen.head'_iff.mp hreach
      obtain ⟨w', hw', htwins'⟩ := htwins.step hw
      exact ih w hw.1 (TransGen.tail'_iff.mpr ⟨v', hrest, hw'⟩) htwins'

theorem acc_of_reaches (h : ReflTransGen (Spawns (bridges hw)) v v')
    (hacc : Acc (flip (Spawns (bridges hw))) v) : Acc (flip (Spawns (bridges hw))) v' := by
  induction h with
  | refl => exact hacc
  | tail _ hstep ih => exact ih.inv hstep

theorem EntersRing.not_acc (h : v.EntersRing hw) : ¬ Acc (flip (Spawns (bridges hw))) v := by
  obtain ⟨u, hu, haccepted, u', hring, hplace⟩ := h
  intro hacc
  have hspawns : ∀ {a b}, TransGen (AcceptedStep hw) a b → TransGen (Spawns (bridges hw)) a b :=
    fun h =>
    TransGen.mono (fun _ _ hstep => hstep.1) _ _ h
  obtain ⟨hio, hsegment⟩ := inherited (hspawns hring).to_reflTransGen
  have hdevice : u'.device = u.device := device_eq_of_place (fromHardware_of_reaches hu)
    (fromHardware_of_reaches (hspawns hring)) hio hsegment hplace
  obtain ⟨_, -, hlast⟩ := TransGen.tail'_iff.mp hring
  exact not_acc_of_twins hring ⟨hdevice, haccepted, hlast.2⟩
    (acc_of_reaches hu.to_reflTransGen hacc)

/-! ## Coming to a ring -/

/-- From level 256 on there is no bus left to give. -/
theorem movedBus_of_level (h : 256 ≤ v.level) : v.movedBus = none := by
  unfold movedBus
  cases v.unused with
  | none => rfl
  | some unused =>
      have hfew : TooFewBuses unused v.level := by
        unfold TooFewBuses
        omega
      exact if_pos hfew

/-- A chain of bridges without end comes to a ring. -/
theorem entersRing_of_chain {f : Nat → BridgeView} (hzero : f 0 = v)
    (hchain : ∀ n, f (n + 1) ∈ (f n).bridges hw) : v.EntersRing hw := by
  have hlevel : ∀ n, (f n).level = v.level + n := by
    intro n
    induction n with
    | zero => rw [hzero]; rfl
    | succ n ih =>
        obtain ⟨bus, g, -, -, hbehind⟩ := mem_functions.mp (mem_bridges.mp (hchain n)).1
        rw [hbehind]
        show (f n).level + 1 = _
        omega
  -- Only a bridge that is accepted leads on from there.
  have haccepted : ∀ n ≥ 256, (f n).Accepted := by
    intro n hn
    by_contra hnot
    obtain ⟨bus, g, hbus, -⟩ := mem_functions.mp (mem_bridges.mp (hchain n)).1
    rw [searchedBus, if_neg hnot, movedBus_of_level (by rw [hlevel]; omega)] at hbus
    cases hbus
  have hfinite := finite_uInt8
  obtain ⟨i, j, hij, hplace⟩ := Finite.exists_ne_map_eq_of_infinite fun n => (f (n + 256)).place
  -- The earlier of the two is on a ring.
  have hring : ∀ {i j : Nat}, i < j → (f (i + 256)).place = (f (j + 256)).place →
      (f (i + 256)).OnBusRing hw := by
    intro i j hlt hplace
    refine ⟨haccepted _ (by omega), f (j + 256), ?_, hplace.symm⟩
    have hsteps : TransGen (fun m n => AcceptedStep hw (f m) (f n)) (i + 256) (j + 256) := by
      refine transGen_of_succ_of_lt _ (fun k hk => ?_) (by omega)
      have hk : i + 256 ≤ k := (Set.mem_Ico.mp hk).1
      exact ⟨hchain k, haccepted (k + 1) (by omega)⟩
    exact TransGen.lift f (fun _ _ h => h) _ _ hsteps
  have hdown : ∀ n > 0, TransGen (Spawns (bridges hw)) v (f n) := by
    intro n hn
    rw [← hzero]
    have hsteps : TransGen (fun m n => Spawns (bridges hw) (f m) (f n)) 0 n :=
      transGen_of_succ_of_lt _ (fun k _ => hchain k) hn
    exact TransGen.lift f (fun _ _ h => h) _ _ hsteps
  rcases Nat.lt_or_gt_of_ne hij with hlt | hgt
  · exact ⟨_, hdown _ (by omega), hring hlt hplace⟩
  · exact ⟨_, hdown _ (by omega), hring hgt hplace.symm⟩

/-- The tree of hidden bridges below a bridge is finite exactly if it comes to no ring. -/
theorem acc_iff (hw : ConfigSpace) (v : BridgeView) :
    Acc (flip (Spawns (bridges hw))) v ↔ ¬ v.EntersRing hw := by
  constructor
  · intro hacc hring
    exact hring.not_acc hacc
  · intro hno
    by_contra hacc
    obtain ⟨f, hzero, hchain⟩ := not_acc_iff_exists_descending_chain.mp hacc
    exact hno (entersRing_of_chain hzero hchain)

end BridgeView

end PciMisc
end EfiApps
