import EfiApps.PciMisc.BusPath

/-!
# Hidden devices

`SearchForHiddenDevices` goes through the list of bridges and probes every
function behind a bridge that has no children, moving the buses first if the
bridge has no usable ones.  It appends what it finds to the lists, among them
the list of bridges it is going through.  `GetPciDevices` repeats the search
until one finds nothing.

The hardware may answer every read in any way and every allocation may fail.
`SearchStep` cuts a run of the rounds into its steps, so that the invariant can
be stated for every state of every run, whether the run ends or not.
-/

namespace EfiApps
namespace PciMisc

open Relation

/-- The hardware's answers, and whether each allocation succeeds. -/
structure HiddenEnv where
  reader : ConfigReader
  pool : Nat → Bool

/-- The state of the search: the records and register writes, the first address
the pool has not handed out yet, the number of reads and allocations so far, and
`PciDeviceCount`. -/
structure Search where
  bus : BusState
  brk : Addr
  time : Nat
  allocations : Nat
  pciDeviceCount : Nat

/-- `PCI_COMMAND_OFFSET`. -/
def pciCommandOffset : Nat := 0x04

/-- A zeroed record for the function that is probed behind `b`. -/
def candidate (heap : Heap) (b : Addr) (deviceNumber functionNumber : UInt8) : PciIoDevice where
  pciRootBridgeIo := (heap b).pciRootBridgeIo
  segmentNumber := (heap b).segmentNumber
  busNumber := (heap b).pci.secondaryBus
  deviceNumber := deviceNumber
  functionNumber := functionNumber
  pciDeviceID := (heap hostBridge).nextPciDeviceID

/-- The body of the loop over the functions, and whether it ends the loop.  A
candidate is only reachable from other records once it is attached, so a rejected
one leaves nothing behind but the addresses it was allocated at. -/
def tryFunction (env : HiddenEnv) (fuel : Nat) (b : Addr) (deviceNumber functionNumber : UInt8)
    (s : Search) : Run (Search × Bool) :=
  if env.pool s.allocations = false then
    .ok ({ s with allocations := s.allocations + 1 }, false)
  else if (s.bus.heap b).pciType1 = false then .error .nullDereference
  else
    let d := candidate s.bus.heap b deviceNumber functionNumber
    let (unit, time) := pciRead env.reader s.time d 16 pciCommandOffset
    let d := { d with pci := { d.pci with command := unit.toUInt16 } }
    let rejected : Search :=
      { s with allocations := s.allocations + 1, brk := s.brk + 1, time := time }
    -- No function answers; the record is freed.
    if d.pci.command = 0xffff then .ok (rejected, false)
    else do
      let (status, d, time) ← fillInPciIoDevice env.reader fuel d time
      if status.isError then .ok ({ rejected with time := time }, false)
      else do
        let heap ← attach s.bus.heap b s.brk d
        .ok ({ rejected with
            bus := { s.bus with heap := heap }
            time := time
            pciDeviceCount := s.pciDeviceCount + 1 },
          -- It is the header of the bridge that is asked for more functions.
          decide (functionNumber = 0) && !(heap b).pci.isPciMultiFunc)

/-- The loop over the functions of a device. -/
def searchFunctions (env : HiddenEnv) (fuel : Nat) (b : Addr) (deviceNumber : UInt8) :
    List UInt8 → Search → Run Search
  | [], s => .ok s
  | functionNumber :: rest, s => do
      let (s, stop) ← tryFunction env fuel b deviceNumber functionNumber s
      if stop then .ok s else searchFunctions env fuel b deviceNumber rest s

/-- The numbers up to `PCI_MAX_FUNC`. -/
def functionNumbers : List UInt8 := (List.range 8).map UInt8.ofNat

/-- The numbers up to `PCI_MAX_DEVICE`. -/
def deviceNumbers : List UInt8 := (List.range 32).map UInt8.ofNat

/-- The loop over the devices behind a bridge. -/
def searchDevices (env : HiddenEnv) (fuel : Nat) (b : Addr) (s : Search) : Run Search :=
  deviceNumbers.foldlM (fun s d => searchFunctions env fuel b d functionNumbers s) s

/-- The body of the loop over the bridges. -/
def searchBridge (env : HiddenEnv) (fuel : Nat) (b : Addr) (s : Search) : Run Search :=
  if (s.bus.heap b).firstChild.isSome then .ok s
  else do
    let (status, movedBuses, bus) ← verifyBuses fuel b s.bus
    let s := { s with bus := bus }
    if status.isError then .ok s
    else do
      let s ← searchDevices env fuel b s
      if movedBuses then do
        let (_, bus) ← unmoveBuses fuel b s.bus
        .ok { s with bus := bus }
      else .ok s

/-- `SearchForHiddenDevices`. -/
def searchForHiddenDevices (env : HiddenEnv) (fuel : Nat) (s : Search) : Run Search := do
  let s ← forEach (fun s b => (s.bus.heap b).chain) (searchBridge env fuel) fuel
    (s.bus.heap hostBridge).chain { s with pciDeviceCount := 0 }
  .ok { s with bus := { s.bus with heap := endBridges s.bus.heap } }

/-- The loop of `GetPciDevices` around `SearchForHiddenDevices`. -/
def hiddenDeviceRounds (env : HiddenEnv) (fuel : Nat) : Nat → Search → Run Search
  | 0, _ => .error .outOfFuel
  | n + 1, s => do
      let s ← searchForHiddenDevices env fuel s
      if s.pciDeviceCount = 0 then .ok s else hiddenDeviceRounds env fuel n s

/-! ## The steps of a run -/

/-- `b` is on the list of bridges. -/
def OnChain (heap : Heap) (b : Addr) : Prop :=
  ∃ bridges, Linked (fun a => (heap a).chain) (heap hostBridge).chain bridges ∧ b ∈ bridges

/-- One step of the rounds: a search starts, a bridge of the list is verified, a
function behind one is probed, the buses of one are restored, or a search ends. -/
inductive SearchStep (env : HiddenEnv) : Search → Search → Prop
  | start (s : Search) : SearchStep env s { s with pciDeviceCount := 0 }
  | verify {fuel : Nat} {b : Addr} {s : Search} {status : EfiStatus} {movedBuses : Bool}
      {bus : BusState} (hb : OnChain s.bus.heap b)
      (h : verifyBuses fuel b s.bus = .ok (status, movedBuses, bus)) :
      SearchStep env s { s with bus := bus }
  | probe {fuel : Nat} {b : Addr} {deviceNumber functionNumber : UInt8} {s s' : Search}
      {stop : Bool} (hb : OnChain s.bus.heap b)
      (h : tryFunction env fuel b deviceNumber functionNumber s = .ok (s', stop)) :
      SearchStep env s s'
  | unmove {fuel : Nat} {b : Addr} {s : Search} {status : EfiStatus} {bus : BusState}
      (hb : OnChain s.bus.heap b) (h : unmoveBuses fuel b s.bus = .ok (status, bus)) :
      SearchStep env s { s with bus := bus }
  | finish (s : Search) :
      SearchStep env s { s with bus := { s.bus with heap := endBridges s.bus.heap } }

/-- What one probe can do: reject the candidate, or attach a new record. -/
theorem tryFunction_cases {env : HiddenEnv} {fuel : Nat} {b : Addr}
    {deviceNumber functionNumber : UInt8} {s s' : Search} {stop : Bool}
    (h : tryFunction env fuel b deviceNumber functionNumber s = .ok (s', stop)) :
    (s'.bus = s.bus ∧ (s.brk ≤ s'.brk ∧ s'.brk ≤ s.brk + 1) ∧
        s'.pciDeviceCount = s.pciDeviceCount) ∨
      ∃ d heap, d.Unlinked ∧ d.pciDeviceID = (s.bus.heap hostBridge).nextPciDeviceID ∧
        attach s.bus.heap b s.brk d = .ok heap ∧ s'.bus = { s.bus with heap := heap } ∧
        s'.brk = s.brk + 1 ∧ s'.pciDeviceCount = s.pciDeviceCount + 1 := by
  unfold tryFunction at h
  split at h
  · simp only [Except.ok.injEq, Prod.mk.injEq] at h
    obtain ⟨rfl, -⟩ := h
    exact .inl ⟨rfl, ⟨le_rfl, Nat.le_succ _⟩, rfl⟩
  · split at h
    · cases h
    · generalize pciRead env.reader s.time (candidate s.bus.heap b deviceNumber functionNumber) 16
        pciCommandOffset = read at h
      obtain ⟨unit, time⟩ := read
      dsimp only at h
      split at h
      · simp only [Except.ok.injEq, Prod.mk.injEq] at h
        obtain ⟨rfl, -⟩ := h
        exact .inl ⟨rfl, ⟨Nat.le_succ _, le_rfl⟩, rfl⟩
      · rw [Run.bind_eq_ok] at h
        obtain ⟨⟨status, d, time'⟩, hfill, h⟩ := h
        dsimp only at h
        split at h
        · simp only [Except.ok.injEq, Prod.mk.injEq] at h
          obtain ⟨rfl, -⟩ := h
          exact .inl ⟨rfl, ⟨Nat.le_succ _, le_rfl⟩, rfl⟩
        · rename_i hok
          rw [Run.bind_eq_ok] at h
          obtain ⟨heap, hattach, h⟩ := h
          simp only [Except.ok.injEq, Prod.mk.injEq] at h
          obtain ⟨rfl, -⟩ := h
          have hd := fillInPciIoDevice_filledIn hfill (by simpa using hok)
          refine .inr ⟨d, heap, ?_, hd.pciDeviceID, hattach, rfl, rfl, rfl⟩
          exact ⟨hd.chain, hd.parent, hd.firstChild, hd.lastChild, hd.nextSibling⟩

end PciMisc
end EfiApps
