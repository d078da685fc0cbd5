import EfiApps.Lib.Fuel
import EfiApps.PciMisc.Config

/-!
# Moving the buses behind a bridge

`MoveBuses` gives every bridge on the path from the root bridge to a bridge new
bus numbers out of the biggest unused range, first in the `New` fields of the
records and then, if there are enough buses, in the bridges' registers.
`UnmoveBuses` writes the `Save` copies back, starting from the bridge itself.

A configuration write through a path that exists succeeds.  The state keeps all
writes in order, so the bus number registers at any moment are the original ones
with the writes so far replayed.
-/

namespace EfiApps
namespace PciMisc

/-- The bus number registers of a bridge. -/
inductive BusRegister
  | primary
  | secondary
  | subordinate
  deriving DecidableEq, Repr

namespace PciIoDevice

/-- `PciType1->Bridge.PrimaryBus`, `SecondaryBus` or `SubordinateBus`. -/
def bridgeBus (d : PciIoDevice) : BusRegister → UInt8
  | .primary => d.pci.primaryBus
  | .secondary => d.pci.secondaryBus
  | .subordinate => d.pci.subordinateBus

/-- `NewPrimaryBus`, `NewSecondaryBus` or `NewSubordinateBus`. -/
def newBus (d : PciIoDevice) : BusRegister → UInt8
  | .primary => d.newPrimaryBus
  | .secondary => d.newSecondaryBus
  | .subordinate => d.newSubordinateBus

/-- `SavePrimaryBus`, `SaveSecondaryBus` or `SaveSubordinateBus`. -/
def savedBus (d : PciIoDevice) : BusRegister → UInt8
  | .primary => d.savePrimaryBus
  | .secondary => d.saveSecondaryBus
  | .subordinate => d.saveSubordinateBus

def setBridgeBus (r : BusRegister) (bus : UInt8) (d : PciIoDevice) : PciIoDevice :=
  match r with
  | .primary => { d with pci := { d.pci with primaryBus := bus } }
  | .secondary => { d with pci := { d.pci with secondaryBus := bus } }
  | .subordinate => { d with pci := { d.pci with subordinateBus := bus } }

def setNewBuses (primary secondary subordinate : UInt8) (d : PciIoDevice) : PciIoDevice :=
  { d with
    newPrimaryBus := primary
    newSecondaryBus := secondary
    newSubordinateBus := subordinate }

def setNewBusNumber (bus : UInt8) (d : PciIoDevice) : PciIoDevice :=
  { d with newBusNumber := bus }

def setBusNumber (bus : UInt8) (d : PciIoDevice) : PciIoDevice := { d with busNumber := bus }

def setPciIo (pciIo : Option Nat) (d : PciIoDevice) : PciIoDevice := { d with pciIo := pciIo }

/-- The record without the fields that moving buses changes. -/
def eraseBuses (d : PciIoDevice) : PciIoDevice :=
  { d with
    pciIo := none
    busNumber := 0
    pci := { d.pci with primaryBus := 0, secondaryBus := 0, subordinateBus := 0 }
    newBusNumber := 0
    newPrimaryBus := 0
    newSecondaryBus := 0
    newSubordinateBus := 0 }

section

variable (d : PciIoDevice) (r r' : BusRegister) (bus bus₂ bus₃ : UInt8) (pciIo : Option Nat)

@[simp] theorem eraseBuses_setBridgeBus : (d.setBridgeBus r bus).eraseBuses = d.eraseBuses := by
  cases r <;> rfl

@[simp] theorem eraseBuses_setNewBuses :
    (d.setNewBuses bus bus₂ bus₃).eraseBuses = d.eraseBuses := rfl

@[simp] theorem eraseBuses_setNewBusNumber : (d.setNewBusNumber bus).eraseBuses = d.eraseBuses :=
  rfl

@[simp] theorem eraseBuses_setBusNumber : (d.setBusNumber bus).eraseBuses = d.eraseBuses := rfl

@[simp] theorem eraseBuses_setPciIo : (d.setPciIo pciIo).eraseBuses = d.eraseBuses := rfl

theorem bridgeBus_eraseLinks : d.eraseLinks.bridgeBus r = d.bridgeBus r := by
  cases r <;> rfl

theorem savedBus_eraseLinks : d.eraseLinks.savedBus r = d.savedBus r := by
  cases r <;> rfl

/-- The bus registers of records that differ in their links alone. -/
theorem bridgeBus_of_eraseLinks {d d' : PciIoDevice} (h : d'.eraseLinks = d.eraseLinks) :
    d'.bridgeBus r = d.bridgeBus r := by
  rw [← bridgeBus_eraseLinks, h, bridgeBus_eraseLinks]

theorem savedBus_of_eraseLinks {d d' : PciIoDevice} (h : d'.eraseLinks = d.eraseLinks) :
    d'.savedBus r = d.savedBus r := by
  rw [← savedBus_eraseLinks, h, savedBus_eraseLinks]

end

end PciIoDevice

/-- A write of a bus number register: the bridge it is meant for, the path it
takes, and the value. -/
structure BusWrite where
  bridge : Addr
  register : BusRegister
  path : ConfigPath
  value : UInt8
  deriving DecidableEq, Repr

/-- The records and the register writes so far. -/
structure BusState where
  heap : Heap
  writes : List BusWrite

/-- Change the record at one address. -/
def BusState.modify (st : BusState) (a : Addr) (f : PciIoDevice → PciIoDevice) : BusState :=
  { st with heap := st.heap.modify a f }

/-- A loop over the children of `b`. -/
def forChildren (fuel : Nat) (b : Addr) (f : PciIoDevice → PciIoDevice) (heap : Heap) : Run Heap :=
  forEach (fun heap c => (heap c).nextSibling) (fun c heap => .ok (heap.modify c f)) fuel
    (heap b).firstChild heap

/-- The `New` fields of a bridge on the path, once those of its parent are set. -/
def renumberBridge (heap : Heap) (b p : Addr) : Run Heap :=
  if (heap p).isSegment then
    if (heap b).pciType1 = false then .error .nullDereference
    else
      .ok (heap.modify b fun d => (d.setNewBusNumber d.busNumber).setNewBuses d.pci.primaryBus
        (heap p).bigUnusedStart (heap p).bigUnusedEnd)
  else
    let newPrimaryBus := (heap p).newSecondaryBus
    .ok (heap.modify b (.setNewBuses newPrimaryBus
      (if newPrimaryBus < pciMaxBus then newPrimaryBus + 1 else pciMaxBus)
      (heap p).newSubordinateBus))

/-- `RenumberBuses`. -/
def renumberBuses (fuel : Nat) : Nat → Addr → Heap → Run Heap
  | n, b, heap =>
      if (heap b).isSegment then .ok heap
      else
        match n with
        | 0 => .error .outOfFuel
        | n + 1 => do
            let p ← Run.deref (heap b).parent
            let heap ← renumberBuses fuel n p heap
            let heap ← renumberBridge heap b p
            forChildren fuel b (.setNewBusNumber (heap b).newSecondaryBus) heap

/-- `UnrenumberBuses`. -/
def unrenumberBuses (fuel : Nat) : Nat → Addr → Heap → Run Heap
  | n, b, heap =>
      if (heap b).isSegment then .ok heap
      else
        match n with
        | 0 => .error .outOfFuel
        | n + 1 => do
            let p ← Run.deref (heap b).parent
            let heap ← unrenumberBuses fuel n p heap
            let heap := heap.modify b fun d => (d.setNewBusNumber d.saveBusNumber).setNewBuses
              d.savePrimaryBus d.saveSecondaryBus d.saveSubordinateBus
            forChildren fuel b (fun c => c.setNewBusNumber c.saveBusNumber) heap

/-- `BusChange`: a register that already has the new value is not written, and
the status of the write is not looked at. -/
def busChange (b : Addr) (r : BusRegister) (st : BusState) : BusState :=
  if (st.heap b).newBus r ≠ (st.heap b).bridgeBus r then
    let st := match (st.heap b).configPath with
      | some path => { st with writes := st.writes ++ [BusWrite.mk b r path ((st.heap b).newBus r)] }
      | none => st
    st.modify b (.setBridgeBus r ((st.heap b).newBus r))
  else st

/-- The part of `WriteBuses` between the recursive calls: the registers of `b`
and the bus numbers of its children. -/
def writeBridge (fuel : Nat) (b : Addr) (st : BusState) : Run BusState := do
  if (st.heap b).pciType1 = false then .error .nullDereference
  else
    let st := busChange b .subordinate (busChange b .secondary (busChange b .primary st))
    let heap ← forChildren fuel b (fun c => c.setBusNumber c.newBusNumber) st.heap
    .ok { st with heap := heap }

/-- `WriteBuses`. -/
def writeBuses (fuel : Nat) (restore : Bool) : Nat → Addr → BusState → Run BusState
  | n, b, st =>
      if (st.heap b).isSegment then .ok st
      else
        match n with
        | 0 => .error .outOfFuel
        | n + 1 =>
            if restore then do
              -- The bridge is written while the bridges above still lead to it.
              let st ← writeBridge fuel b st
              let p ← Run.deref (st.heap b).parent
              let st ← writeBuses fuel restore n p st
              .ok (st.modify b fun d => d.setPciIo d.savePciIo)
            else do
              let p ← Run.deref (st.heap b).parent
              let st ← writeBuses fuel restore n p st
              writeBridge fuel b (st.modify b (.setPciIo none))

/-- `MoveBuses`. -/
def moveBuses (fuel : Nat) (b : Addr) (st : BusState) : Run (EfiStatus × BusState) := do
  let heap ← renumberBuses fuel fuel b st.heap
  let st := { st with heap := heap }
  if (st.heap b).newSecondaryBus = pciMaxBus ∨
      (st.heap b).newSubordinateBus < (st.heap b).newSecondaryBus then
    .ok (.outOfResources, st)
  else do
    let st ← writeBuses fuel false fuel b st
    .ok (.success, st)

/-- `UnmoveBuses`. -/
def unmoveBuses (fuel : Nat) (b : Addr) (st : BusState) : Run (EfiStatus × BusState) := do
  let heap ← unrenumberBuses fuel fuel b st.heap
  let st ← writeBuses fuel true fuel b { st with heap := heap }
  .ok (.success, st)

/-- The first iteration of the loop in `VerifyBuses`, whose `break` is outside
the `if`: only `b` itself is tested. -/
def needToMoveBuses (heap : Heap) (b : Addr) : Run Bool :=
  if (heap b).isSegment then .ok false
  else if (heap b).pciType1 = false then .error .nullDereference
  else if (heap b).pci.secondaryBus = 0 ∨ (heap b).pci.subordinateBus = 0 then .ok true
  else do
    let p ← Run.deref (heap b).parent
    if (heap p).pciType1 = false then .error .nullDereference
    else
      .ok (decide ((heap b).busNumber < (heap p).pci.secondaryBus ∨
        (heap b).busNumber > (heap p).pci.subordinateBus))

/-- `VerifyBuses`, with `MovedBuses`. -/
def verifyBuses (fuel : Nat) (b : Addr) (st : BusState) : Run (EfiStatus × Bool × BusState) := do
  let needed ← needToMoveBuses st.heap b
  if needed then do
    let (status, st) ← moveBuses fuel b st
    .ok (status, !status.isError, st)
  else .ok (.success, false, st)

/-! ## What moving buses leaves alone -/

/-- Two heaps agree on everything but the fields that moving buses changes. -/
def SameButBuses (heap heap' : Heap) : Prop :=
  ∀ a, (heap' a).eraseBuses = (heap a).eraseBuses

namespace SameButBuses

theorem refl (heap : Heap) : SameButBuses heap heap := fun _ => rfl

theorem trans {heap₁ heap₂ heap₃ : Heap} (h : SameButBuses heap₁ heap₂)
    (h' : SameButBuses heap₂ heap₃) : SameButBuses heap₁ heap₃ :=
  fun a => (h' a).trans (h a)

theorem modify {heap₀ heap : Heap} (h : SameButBuses heap₀ heap) (a : Addr)
    {f : PciIoDevice → PciIoDevice} (hf : ∀ d, (f d).eraseBuses = d.eraseBuses) :
    SameButBuses heap₀ (heap.modify a f) :=
  fun b => (Heap.modify_field _ heap a b hf).trans (h b)

variable {heap heap' : Heap} (h : SameButBuses heap heap') (a : Addr)
include h

theorem chain : (heap' a).chain = (heap a).chain := (congrArg PciIoDevice.chain (h a) :)

theorem lastBridge : (heap' a).lastBridge = (heap a).lastBridge :=
  (congrArg PciIoDevice.lastBridge (h a) :)

theorem parent : (heap' a).parent = (heap a).parent := (congrArg PciIoDevice.parent (h a) :)

theorem firstChild : (heap' a).firstChild = (heap a).firstChild :=
  (congrArg PciIoDevice.firstChild (h a) :)

theorem lastChild : (heap' a).lastChild = (heap a).lastChild :=
  (congrArg PciIoDevice.lastChild (h a) :)

theorem nextSibling : (heap' a).nextSibling = (heap a).nextSibling :=
  (congrArg PciIoDevice.nextSibling (h a) :)

theorem pciType1 : (heap' a).pciType1 = (heap a).pciType1 :=
  (congrArg PciIoDevice.pciType1 (h a) :)

theorem isSegment : (heap' a).isSegment = (heap a).isSegment :=
  (congrArg PciIoDevice.isSegment (h a) :)

theorem pciDeviceID : (heap' a).pciDeviceID = (heap a).pciDeviceID :=
  (congrArg PciIoDevice.pciDeviceID (h a) :)

theorem nextPciDeviceID : (heap' a).nextPciDeviceID = (heap a).nextPciDeviceID :=
  (congrArg PciIoDevice.nextPciDeviceID (h a) :)

theorem pciRootBridgeIo : (heap' a).pciRootBridgeIo = (heap a).pciRootBridgeIo :=
  (congrArg PciIoDevice.pciRootBridgeIo (h a) :)

theorem savePciIo : (heap' a).savePciIo = (heap a).savePciIo :=
  (congrArg PciIoDevice.savePciIo (h a) :)

theorem saveBusNumber : (heap' a).saveBusNumber = (heap a).saveBusNumber :=
  (congrArg PciIoDevice.saveBusNumber (h a) :)

theorem savedBus (r : BusRegister) : (heap' a).savedBus r = (heap a).savedBus r := by
  cases r
  · exact (congrArg PciIoDevice.savePrimaryBus (h a) :)
  · exact (congrArg PciIoDevice.saveSecondaryBus (h a) :)
  · exact (congrArg PciIoDevice.saveSubordinateBus (h a) :)

end SameButBuses

theorem forChildren_same {fuel : Nat} {b : Addr} {f : PciIoDevice → PciIoDevice}
    (hf : ∀ d, (f d).eraseBuses = d.eraseBuses) {heap heap' : Heap}
    (h : forChildren fuel b f heap = .ok heap') : SameButBuses heap heap' := by
  unfold forChildren at h
  generalize (heap b).firstChild = p at h
  induction fuel generalizing p heap with
  | zero =>
      cases p with
      | none =>
          obtain rfl := Except.ok.inj h
          exact .refl _
      | some c => simp [forEach] at h
  | succ fuel ih =>
      cases p with
      | none =>
          obtain rfl := Except.ok.inj h
          exact .refl _
      | some c => exact ((SameButBuses.refl heap).modify c hf).trans (ih _ h)

theorem renumberBridge_same {heap heap' : Heap} {b p : Addr}
    (h : renumberBridge heap b p = .ok heap') : SameButBuses heap heap' := by
  unfold renumberBridge at h
  split at h
  · split at h
    · cases h
    · obtain rfl := Except.ok.inj h
      exact (SameButBuses.refl heap).modify b (by simp)
  · obtain rfl := Except.ok.inj h
    exact (SameButBuses.refl heap).modify b (by simp)

theorem renumberBuses_same {fuel n : Nat} {b : Addr} {heap heap' : Heap}
    (h : renumberBuses fuel n b heap = .ok heap') : SameButBuses heap heap' := by
  induction n generalizing b heap' with
  | zero =>
      unfold renumberBuses at h
      split at h
      · obtain rfl := Except.ok.inj h
        exact .refl _
      · cases h
  | succ n ih =>
      unfold renumberBuses at h
      split at h
      · obtain rfl := Except.ok.inj h
        exact .refl _
      · simp only [Run.bind_eq_ok] at h
        obtain ⟨p, -, heap₁, hrec, heap₂, hbridge, hchildren⟩ := h
        exact ((ih hrec).trans (renumberBridge_same hbridge)).trans
          (forChildren_same (by simp) hchildren)

theorem unrenumberBuses_same {fuel n : Nat} {b : Addr} {heap heap' : Heap}
    (h : unrenumberBuses fuel n b heap = .ok heap') : SameButBuses heap heap' := by
  induction n generalizing b heap' with
  | zero =>
      unfold unrenumberBuses at h
      split at h
      · obtain rfl := Except.ok.inj h
        exact .refl _
      · cases h
  | succ n ih =>
      unfold unrenumberBuses at h
      split at h
      · obtain rfl := Except.ok.inj h
        exact .refl _
      · simp only [Run.bind_eq_ok] at h
        obtain ⟨p, -, heap₁, hrec, hchildren⟩ := h
        exact ((ih hrec).modify b (by simp)).trans (forChildren_same (by simp) hchildren)

/-- `BusChange` on the records: the field gets the new value in any case. -/
theorem busChange_heap (b : Addr) (r : BusRegister) (st : BusState) :
    (busChange b r st).heap = st.heap.modify b (.setBridgeBus r ((st.heap b).newBus r)) := by
  unfold busChange
  split
  · cases (st.heap b).configPath <;> rfl
  · rename_i hsame
    funext a
    rw [Heap.modify_apply]
    split
    · rename_i ha
      subst ha
      rw [not_ne_iff.mp hsame]
      cases r <;> rfl
    · rfl

theorem writeBridge_same {fuel : Nat} {b : Addr} {st st' : BusState}
    (h : writeBridge fuel b st = .ok st') : SameButBuses st.heap st'.heap := by
  unfold writeBridge at h
  split at h
  · cases h
  · simp only [Run.bind_eq_ok] at h
    obtain ⟨heap, hchildren, h⟩ := h
    obtain rfl := Except.ok.inj h
    refine SameButBuses.trans ?_ (forChildren_same (by simp) hchildren)
    simp only [busChange_heap]
    exact (((SameButBuses.refl _).modify b (by simp)).modify b (by simp)).modify b (by simp)

theorem writeBuses_same {fuel n : Nat} {restore : Bool} {b : Addr} {st st' : BusState}
    (h : writeBuses fuel restore n b st = .ok st') : SameButBuses st.heap st'.heap := by
  induction n generalizing b st st' with
  | zero =>
      unfold writeBuses at h
      split at h
      · obtain rfl := Except.ok.inj h
        exact .refl _
      · cases h
  | succ n ih =>
      unfold writeBuses at h
      split at h
      · obtain rfl := Except.ok.inj h
        exact .refl _
      · cases restore with
        | true =>
            simp only [if_true, Run.bind_eq_ok] at h
            obtain ⟨st₁, hbridge, p, -, st₂, hrec, h⟩ := h
            obtain rfl := Except.ok.inj h
            exact ((writeBridge_same hbridge).trans (ih hrec)).modify b (by simp)
        | false =>
            simp only [Bool.false_eq_true, if_false, Run.bind_eq_ok] at h
            obtain ⟨p, -, st₁, hrec, hbridge⟩ := h
            exact ((ih hrec).modify b (by simp)).trans (writeBridge_same hbridge)

theorem moveBuses_same {fuel : Nat} {b : Addr} {st st' : BusState} {status : EfiStatus}
    (h : moveBuses fuel b st = .ok (status, st')) : SameButBuses st.heap st'.heap := by
  unfold moveBuses at h
  simp only [Run.bind_eq_ok] at h
  obtain ⟨heap, hrenumber, h⟩ := h
  have hsame := renumberBuses_same hrenumber
  split at h
  · simp only [Except.ok.injEq, Prod.mk.injEq] at h
    obtain ⟨-, rfl⟩ := h
    exact hsame
  · simp only [Run.bind_eq_ok] at h
    obtain ⟨st₁, hwrite, h⟩ := h
    simp only [Except.ok.injEq, Prod.mk.injEq] at h
    obtain ⟨-, rfl⟩ := h
    exact hsame.trans (writeBuses_same hwrite)

theorem unmoveBuses_same {fuel : Nat} {b : Addr} {st st' : BusState} {status : EfiStatus}
    (h : unmoveBuses fuel b st = .ok (status, st')) : SameButBuses st.heap st'.heap := by
  unfold unmoveBuses at h
  simp only [Run.bind_eq_ok] at h
  obtain ⟨heap, hrenumber, st₁, hwrite, h⟩ := h
  simp only [Except.ok.injEq, Prod.mk.injEq] at h
  obtain ⟨-, rfl⟩ := h
  exact (unrenumberBuses_same hrenumber).trans (writeBuses_same hwrite)

theorem verifyBuses_same {fuel : Nat} {b : Addr} {st st' : BusState} {status : EfiStatus}
    {moved : Bool} (h : verifyBuses fuel b st = .ok (status, moved, st')) :
    SameButBuses st.heap st'.heap := by
  unfold verifyBuses at h
  simp only [Run.bind_eq_ok] at h
  obtain ⟨needed, -, h⟩ := h
  cases needed with
  | true =>
      simp only [if_true, Run.bind_eq_ok] at h
      obtain ⟨⟨status₁, st₁⟩, hmove, h⟩ := h
      simp only [Except.ok.injEq, Prod.mk.injEq] at h
      obtain ⟨-, -, rfl⟩ := h
      exact moveBuses_same hmove
  | false =>
      simp only [Bool.false_eq_true, if_false, Except.ok.injEq, Prod.mk.injEq] at h
      obtain ⟨-, -, rfl⟩ := h
      exact .refl _

/-! ## More fuel -/

section fuel

variable {fuel fuel' n n' : Nat}

theorem forChildren_extendedBy (hfuel : fuel ≤ fuel') (b : Addr) (f : PciIoDevice → PciIoDevice)
    (heap : Heap) : (forChildren fuel b f heap).ExtendedBy (forChildren fuel' b f heap) :=
  forEach_extendedBy (fun _ _ => .refl _) hfuel _ _

theorem renumberBuses_extendedBy (hfuel : fuel ≤ fuel') (hn : n ≤ n') (b : Addr) (heap : Heap) :
    (renumberBuses fuel n b heap).ExtendedBy (renumberBuses fuel' n' b heap) := by
  induction n generalizing b n' heap with
  | zero =>
      unfold renumberBuses
      exact .ite (.refl _) (Run.extendedBy_error _ _)
  | succ n ih =>
      obtain ⟨n', rfl⟩ : ∃ k, n' = k + 1 := ⟨n' - 1, by omega⟩
      unfold renumberBuses
      refine .ite (.refl _) (.bind (.refl _) fun p => ?_)
      refine (ih (by omega) p heap).bind fun heap₁ => .bind (.refl _) fun heap₂ => ?_
      exact forChildren_extendedBy hfuel b _ heap₂

theorem unrenumberBuses_extendedBy (hfuel : fuel ≤ fuel') (hn : n ≤ n') (b : Addr) (heap : Heap) :
    (unrenumberBuses fuel n b heap).ExtendedBy (unrenumberBuses fuel' n' b heap) := by
  induction n generalizing b n' heap with
  | zero =>
      unfold unrenumberBuses
      exact .ite (.refl _) (Run.extendedBy_error _ _)
  | succ n ih =>
      obtain ⟨n', rfl⟩ : ∃ k, n' = k + 1 := ⟨n' - 1, by omega⟩
      unfold unrenumberBuses
      refine .ite (.refl _) (.bind (.refl _) fun p => ?_)
      exact (ih (by omega) p heap).bind fun heap₁ => forChildren_extendedBy hfuel b _ _

theorem writeBridge_extendedBy (hfuel : fuel ≤ fuel') (b : Addr) (st : BusState) :
    (writeBridge fuel b st).ExtendedBy (writeBridge fuel' b st) := by
  unfold writeBridge
  refine .ite (.refl _) ?_
  exact (forChildren_extendedBy hfuel b _ _).bind fun _ => .refl _

theorem writeBuses_extendedBy (hfuel : fuel ≤ fuel') (restore : Bool) (hn : n ≤ n') (b : Addr)
    (st : BusState) :
    (writeBuses fuel restore n b st).ExtendedBy (writeBuses fuel' restore n' b st) := by
  induction n generalizing b n' st with
  | zero =>
      unfold writeBuses
      exact .ite (.refl _) (Run.extendedBy_error _ _)
  | succ n ih =>
      obtain ⟨n', rfl⟩ : ∃ k, n' = k + 1 := ⟨n' - 1, by omega⟩
      unfold writeBuses
      refine .ite (.refl _) (.ite ?_ ?_)
      · refine (writeBridge_extendedBy hfuel b st).bind fun st₁ => .bind (.refl _) fun p => ?_
        exact (ih (by omega) p st₁).bind fun _ => .refl _
      · refine .bind (.refl _) fun p => ?_
        exact (ih (by omega) p st).bind fun st₁ => writeBridge_extendedBy hfuel b _

theorem moveBuses_extendedBy (hfuel : fuel ≤ fuel') (b : Addr) (st : BusState) :
    (moveBuses fuel b st).ExtendedBy (moveBuses fuel' b st) := by
  unfold moveBuses
  refine (renumberBuses_extendedBy hfuel hfuel b st.heap).bind fun heap => .ite (.refl _) ?_
  exact (writeBuses_extendedBy hfuel false hfuel b _).bind fun _ => .refl _

theorem unmoveBuses_extendedBy (hfuel : fuel ≤ fuel') (b : Addr) (st : BusState) :
    (unmoveBuses fuel b st).ExtendedBy (unmoveBuses fuel' b st) := by
  unfold unmoveBuses
  refine (unrenumberBuses_extendedBy hfuel hfuel b st.heap).bind fun heap => ?_
  exact (writeBuses_extendedBy hfuel true hfuel b _).bind fun _ => .refl _

theorem verifyBuses_extendedBy (hfuel : fuel ≤ fuel') (b : Addr) (st : BusState) :
    (verifyBuses fuel b st).ExtendedBy (verifyBuses fuel' b st) := by
  unfold verifyBuses
  refine .bind (.refl _) fun needed => .ite ?_ (.refl _)
  exact (moveBuses_extendedBy hfuel b st).bind fun _ => .refl _

end fuel

end PciMisc
end EfiApps
