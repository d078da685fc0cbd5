import EfiApps.PciMisc.Config

/-!
# Collecting the root bridges and the PCI functions

The first half of `GetPciDevices`: every root bridge handle and then every
`PciIo` handle is converted to a record, and a record that could be converted
gets the next `PciDeviceID` and a place in `PciDeviceArray`.  Any conversion may
fail; the status of the last one is the status of the function.
-/

namespace EfiApps
namespace PciMisc

/-- `InitRootBridge`. -/
def initRootBridge (io : Option RootBridgeIo) (pciDeviceID : Nat) : PciIoDevice where
  pciRootBridgeIo := io
  segmentNumber := match io with
    | some io => io.segmentNumber
    | none => 0
  isSegment := io.isSome
  pciType1 := true
  pci := { headerType := 1, subordinateBus := pciMaxBus }
  pciDeviceID := pciDeviceID

/-- What the firmware answers for one root bridge handle: the status of
`HandleProtocol`, the interface, and whether `AllocatePool` delivers. -/
structure RootHandle where
  handleProtocol : EfiStatus
  io : RootBridgeIo
  pool : Bool
  deriving DecidableEq, Repr

/-- What the firmware answers for one `PciIo` handle: the status of
`HandleProtocol`, the interface, whether `AllocateZeroPool` delivers, what
`GetLocation` says, and the configuration space behind the interface. -/
structure PciIoHandle where
  handleProtocol : EfiStatus
  pciIo : Nat
  pool : Bool
  getLocation : EfiStatus
  segmentNumber : Nat
  busNumber : UInt8
  deviceNumber : UInt8
  functionNumber : UInt8
  reader : ConfigReader

/-- `PciRootIoToPciIoDevice`. -/
def pciRootIoToPciIoDevice (handle : RootHandle) (pciDeviceID : Nat) :
    EfiStatus × Option PciIoDevice :=
  if handle.pool then (.success, some (initRootBridge (some handle.io) pciDeviceID))
  else (.outOfResources, none)

/-- `PciIoToPciIoDevice`: a record whose location or header cannot be read is
freed again. -/
def pciIoToPciIoDevice (fuel : Nat) (handle : PciIoHandle) (pciDeviceID : Nat) :
    Run (EfiStatus × Option PciIoDevice) :=
  if handle.pool = false then
    .ok (.outOfResources, none)
  else if handle.getLocation.isError then
    .ok (handle.getLocation, none)
  else do
    let d : PciIoDevice :=
      { pciDeviceID := pciDeviceID
        pciIo := some handle.pciIo
        segmentNumber := handle.segmentNumber
        busNumber := handle.busNumber
        deviceNumber := handle.deviceNumber
        functionNumber := handle.functionNumber }
    let (status, d, _) ← fillInPciIoDevice handle.reader fuel d 0
    .ok (status, if status.isError then none else some d)

/-- The state of the collecting loops: the records, the first address the pool
has not handed out yet, `PciDeviceArray` and `Status`. -/
structure Collect where
  heap : Heap
  brk : Addr
  pciDeviceArray : List Addr
  status : EfiStatus

/-- The state before the first handle: only the host bridge has a record. -/
def Collect.init : Collect where
  heap := Function.update (fun _ => {}) hostBridge
    { initRootBridge none 0 with lastBridge := hostBridge, nextPciDeviceID := 1 }
  brk := 1
  pciDeviceArray := []
  status := .success

/-- `PciDeviceArray[PciDeviceCount++] = PciIoDevice; HostBridge->NextPciDeviceID++`. -/
def Collect.push (s : Collect) (d : PciIoDevice) (status : EfiStatus) : Collect where
  heap := Heap.modify (Function.update s.heap s.brk d) hostBridge
    (.setNextPciDeviceID ((s.heap hostBridge).nextPciDeviceID + 1))
  brk := s.brk + 1
  pciDeviceArray := s.pciDeviceArray ++ [s.brk]
  status := status

/-- The body of the loop over the root bridge handles. -/
def getRoot (s : Collect) (handle : RootHandle) : Collect :=
  if handle.handleProtocol.isError then
    { s with status := handle.handleProtocol }
  else
    match pciRootIoToPciIoDevice handle (s.heap hostBridge).nextPciDeviceID with
    | (status, some d) => s.push d status
    | (status, none) => { s with status := status }

/-- The body of the loop over the `PciIo` handles. -/
def getDevice (fuel : Nat) (s : Collect) (handle : PciIoHandle) : Run Collect :=
  if handle.handleProtocol.isError then
    .ok { s with status := handle.handleProtocol }
  else do
    match ← pciIoToPciIoDevice fuel handle (s.heap hostBridge).nextPciDeviceID with
    | (status, some d) => .ok (s.push d status)
    | (status, none) => .ok { s with status := status }

/-- The collecting loops: without a single root bridge the functions are not
looked at. -/
def collect (fuel : Nat) (roots : List RootHandle) (handles : List PciIoHandle) : Run Collect :=
  let s := roots.foldl getRoot .init
  if s.pciDeviceArray = [] then .ok s else handles.foldlM (getDevice fuel) s

/-! ## What is true of every collection -/

/-- A record that is in no list yet. -/
structure PciIoDevice.Unlinked (d : PciIoDevice) : Prop where
  chain : d.chain = none
  parent : d.parent = none
  firstChild : d.firstChild = none
  lastChild : d.lastChild = none
  nextSibling : d.nextSibling = none

/-- What the collecting loops keep: the records of the array are distinct,
unlinked and numbered from one below `NextPciDeviceID`, a root bridge claims
every bus of its segment, and the host bridge is as `InitRootBridge` left it. -/
structure Collected (s : Collect) : Prop where
  unlinked : ∀ a, (s.heap a).Unlinked
  nodup : s.pciDeviceArray.Nodup
  mem : ∀ a ∈ s.pciDeviceArray, hostBridge < a ∧ a < s.brk
  brk : hostBridge < s.brk
  idPos : ∀ a ∈ s.pciDeviceArray, 0 < (s.heap a).pciDeviceID
  idLt : ∀ a ∈ s.pciDeviceArray, (s.heap a).pciDeviceID < (s.heap hostBridge).nextPciDeviceID
  idInj : ∀ a ∈ s.pciDeviceArray, ∀ b ∈ s.pciDeviceArray,
    (s.heap a).pciDeviceID = (s.heap b).pciDeviceID → a = b
  root : ∀ a ∈ s.pciDeviceArray, (s.heap a).isSegment = true →
    (s.heap a).busNumber = 0 ∧ (s.heap a).pciType1 = true ∧
      (s.heap a).pci.secondaryBus = 0 ∧ (s.heap a).pci.subordinateBus = pciMaxBus
  nextPos : 0 < (s.heap hostBridge).nextPciDeviceID
  hostID : (s.heap hostBridge).pciDeviceID = 0
  hostSecondary : (s.heap hostBridge).pci.secondaryBus = 0
  hostSubordinate : (s.heap hostBridge).pci.subordinateBus = pciMaxBus
  hostLastBridge : (s.heap hostBridge).lastBridge = hostBridge

theorem collected_init : Collected .init := by
  constructor <;> simp [Collect.init, initRootBridge, hostBridge]
  intro a
  by_cases ha : a = 0
  · subst ha
    constructor <;> rfl
  · rw [Function.update_of_ne ha]
    constructor <;> rfl

/-- A new record: unlinked, numbered with `NextPciDeviceID`, and with all buses
if it is a root bridge. -/
structure PciIoDevice.Fresh (d : PciIoDevice) (id : Nat) : Prop extends d.Unlinked where
  pciDeviceID : d.pciDeviceID = id
  root : d.isSegment = true → d.busNumber = 0 ∧ d.pciType1 = true ∧
    d.pci.secondaryBus = 0 ∧ d.pci.subordinateBus = pciMaxBus

section push

variable {s : Collect} {d : PciIoDevice} {status : EfiStatus} {a : Addr}

theorem Collect.push_heap_new (hbrk : hostBridge < s.brk) : (s.push d status).heap s.brk = d := by
  simp [Collect.push, Heap.modify_of_ne _ _ (ne_of_gt hbrk)]

theorem Collect.push_heap_host (hbrk : hostBridge < s.brk) :
    (s.push d status).heap hostBridge =
      (s.heap hostBridge).setNextPciDeviceID ((s.heap hostBridge).nextPciDeviceID + 1) := by
  simp [Collect.push, Function.update_of_ne (ne_of_lt hbrk)]

theorem Collect.push_heap_old (ha : a ≠ hostBridge) (hbrk : a ≠ s.brk) :
    (s.push d status).heap a = s.heap a := by
  simp [Collect.push, Heap.modify_of_ne _ _ ha, Function.update_of_ne hbrk]

theorem Collect.mem_push_array :
    a ∈ (s.push d status).pciDeviceArray ↔ a ∈ s.pciDeviceArray ∨ a = s.brk := by
  simp [Collect.push]

/-- The records that were in the array stay as they are. -/
theorem Collected.push_heap_of_mem (h : Collected s) (ha : a ∈ s.pciDeviceArray) :
    (s.push d status).heap a = s.heap a :=
  Collect.push_heap_old (ne_of_gt (h.mem a ha).1) (ne_of_lt (h.mem a ha).2)

end push

theorem Collected.push {s : Collect} (h : Collected s) {d : PciIoDevice}
    (hd : d.Fresh (s.heap hostBridge).nextPciDeviceID) (status : EfiStatus) :
    Collected (s.push d status) := by
  have hnew : (s.push d status).heap s.brk = d := Collect.push_heap_new h.brk
  have hhost : (s.push d status).heap hostBridge =
      (s.heap hostBridge).setNextPciDeviceID ((s.heap hostBridge).nextPciDeviceID + 1) :=
    Collect.push_heap_host h.brk
  have hmem : ∀ a ∈ s.pciDeviceArray, (s.push d status).heap a = s.heap a := fun a ha =>
    h.push_heap_of_mem ha
  have harray : ∀ a, a ∈ (s.push d status).pciDeviceArray ↔
      a ∈ s.pciDeviceArray ∨ a = s.brk := fun a => Collect.mem_push_array
  constructor
  · intro a
    by_cases ha : a = hostBridge
    · subst ha
      rw [hhost]
      obtain ⟨_, _, _, _, _⟩ := h.unlinked hostBridge
      constructor <;> assumption
    · by_cases hb : a = s.brk
      · subst hb
        rw [hnew]
        exact hd.toUnlinked
      · rw [Collect.push_heap_old ha hb]
        exact h.unlinked a
  · refine List.nodup_append.mpr ⟨h.nodup, by simp, ?_⟩
    intro a ha b hb hab
    obtain rfl : b = s.brk := by simpa using hb
    exact absurd (hab ▸ (h.mem a ha).2) (lt_irrefl _)
  · intro a ha
    rcases (harray a).mp ha with hmem | rfl
    · exact ⟨(h.mem a hmem).1, Nat.lt_succ_of_lt (h.mem a hmem).2⟩
    · exact ⟨h.brk, Nat.lt_succ_self _⟩
  · exact Nat.lt_succ_of_lt h.brk
  · intro a ha
    rcases (harray a).mp ha with hin | rfl
    · rw [hmem a hin]
      exact h.idPos a hin
    · rw [hnew, hd.pciDeviceID]
      exact h.nextPos
  · intro a ha
    rw [hhost]
    rcases (harray a).mp ha with hin | rfl
    · rw [hmem a hin]
      exact Nat.lt_succ_of_lt (h.idLt a hin)
    · rw [hnew, hd.pciDeviceID]
      exact Nat.lt_succ_self _
  · intro a ha b hb hid
    -- The new record has the number `NextPciDeviceID`, above all others.
    rcases (harray a).mp ha with hina | rfl <;> rcases (harray b).mp hb with hinb | rfl
    · rw [hmem a hina, hmem b hinb] at hid
      exact h.idInj a hina b hinb hid
    · rw [hmem a hina, hnew, hd.pciDeviceID] at hid
      exact absurd hid (ne_of_lt (h.idLt a hina))
    · rw [hnew, hmem b hinb, hd.pciDeviceID] at hid
      exact absurd hid.symm (ne_of_lt (h.idLt b hinb))
    · rfl
  · intro a ha
    rcases (harray a).mp ha with hin | rfl
    · rw [hmem a hin]
      exact h.root a hin
    · rw [hnew]
      exact hd.root
  all_goals rw [hhost]
  · exact Nat.succ_pos _
  · exact h.hostID
  · exact h.hostSecondary
  · exact h.hostSubordinate
  · exact h.hostLastBridge

theorem Collected.status {s : Collect} (h : Collected s) (status : EfiStatus) :
    Collected { s with status := status } :=
  ⟨h.unlinked, h.nodup, h.mem, h.brk, h.idPos, h.idLt, h.idInj, h.root, h.nextPos, h.hostID,
    h.hostSecondary, h.hostSubordinate, h.hostLastBridge⟩

theorem fresh_initRootBridge (io : RootBridgeIo) (id : Nat) :
    (initRootBridge (some io) id).Fresh id := by
  refine ⟨by constructor <;> rfl, rfl, fun _ => ⟨rfl, rfl, rfl, rfl⟩⟩

/-- A root bridge handle gives a record, or only a status. -/
theorem getRoot_cases (s : Collect) (handle : RootHandle) :
    (∃ status, getRoot s handle = { s with status := status }) ∨
      getRoot s handle =
        s.push (initRootBridge (some handle.io) (s.heap hostBridge).nextPciDeviceID) .success := by
  unfold getRoot pciRootIoToPciIoDevice
  split
  · exact .inl ⟨_, rfl⟩
  · cases handle.pool with
    | false => exact .inl ⟨_, rfl⟩
    | true => exact .inr rfl

theorem Collected.getRoot {s : Collect} (h : Collected s) (handle : RootHandle) :
    Collected (getRoot s handle) := by
  rcases getRoot_cases s handle with ⟨status, hs⟩ | hs
  · rw [hs]
    exact h.status status
  · rw [hs]
    exact h.push (fresh_initRootBridge handle.io _) _

/-- The record that `PciIoToPciIoDevice` fills in, with the location that `GetLocation` gives. -/
def PciIoHandle.located (handle : PciIoHandle) (pciDeviceID : Nat) : PciIoDevice where
  pciDeviceID := pciDeviceID
  pciIo := some handle.pciIo
  segmentNumber := handle.segmentNumber
  busNumber := handle.busNumber
  deviceNumber := handle.deviceNumber
  functionNumber := handle.functionNumber

/-- A record that is delivered has been filled in. -/
theorem filledIn_pciIoToPciIoDevice {fuel id : Nat} {handle : PciIoHandle} {status : EfiStatus}
    {d : PciIoDevice} (h : pciIoToPciIoDevice fuel handle id = .ok (status, some d)) :
    (handle.located id).FilledIn d := by
  unfold pciIoToPciIoDevice at h
  split at h
  · simp at h
  · split at h
    · simp at h
    · rw [Run.bind_eq_ok] at h
      obtain ⟨⟨status', d', t⟩, hfill, h⟩ := h
      simp only [Except.ok.injEq, Prod.mk.injEq] at h
      obtain ⟨-, h⟩ := h
      split at h
      · cases h
      · rename_i hok
        obtain rfl : d' = d := Option.some.inj h
        exact fillInPciIoDevice_filledIn hfill (by simpa using hok)

/-- A record that is filled in is new. -/
theorem PciIoHandle.fresh_of_filledIn {handle : PciIoHandle} {id : Nat} {d : PciIoDevice}
    (hd : (handle.located id).FilledIn d) : d.Fresh id := by
  refine ⟨⟨hd.chain, hd.parent, hd.firstChild, hd.lastChild, hd.nextSibling⟩,
    hd.pciDeviceID, fun hsegment => ?_⟩
  rw [hd.isSegment] at hsegment
  cases hsegment

/-- A `PciIo` handle gives a record that is filled in, or only a status. -/
theorem getDevice_cases {fuel : Nat} {s s' : Collect} {handle : PciIoHandle}
    (hs : getDevice fuel s handle = .ok s') :
    (∃ status, s' = { s with status := status }) ∨
      ∃ status d, (handle.located (s.heap hostBridge).nextPciDeviceID).FilledIn d ∧
        s' = s.push d status := by
  unfold getDevice at hs
  split at hs
  · exact .inl ⟨_, (Except.ok.inj hs).symm⟩
  · rw [Run.bind_eq_ok] at hs
    obtain ⟨⟨status, d⟩, hconvert, hs⟩ := hs
    cases d with
    | none => exact .inl ⟨status, (Except.ok.inj hs).symm⟩
    | some d =>
        exact .inr ⟨status, d, filledIn_pciIoToPciIoDevice hconvert, (Except.ok.inj hs).symm⟩

theorem Collected.getDevice {fuel : Nat} {s s' : Collect} (h : Collected s)
    {handle : PciIoHandle} (hs : getDevice fuel s handle = .ok s') : Collected s' := by
  rcases getDevice_cases hs with ⟨status, rfl⟩ | ⟨status, d, hd, rfl⟩
  · exact h.status status
  · exact h.push (PciIoHandle.fresh_of_filledIn hd) status

/-- What holds of the host bridge alone and is kept by the bodies of both loops holds of every
collection. -/
theorem collect_invariant {P : Collect → Prop} {fuel : Nat} {roots : List RootHandle}
    {handles : List PciIoHandle} {s : Collect} (hinit : P .init)
    (hroot : ∀ s handle, P s → P (getRoot s handle))
    (hdevice : ∀ s s' handle, P s → getDevice fuel s handle = .ok s' → P s')
    (hs : collect fuel roots handles = .ok s) : P s := by
  have hroots : P (roots.foldl getRoot .init) := by
    clear hs
    generalize Collect.init = s₀ at hinit ⊢
    induction roots generalizing s₀ with
    | nil => exact hinit
    | cons handle roots ih => exact ih _ (hroot s₀ handle hinit)
  unfold collect at hs
  dsimp only at hs
  split at hs
  · obtain rfl := Except.ok.inj hs
    exact hroots
  · generalize roots.foldl getRoot .init = s₀ at hroots hs
    induction handles generalizing s₀ with
    | nil =>
        obtain rfl := Except.ok.inj hs
        exact hroots
    | cons handle handles ih =>
        rw [List.foldlM_cons, Run.bind_eq_ok] at hs
        obtain ⟨s₁, hs₁, hs⟩ := hs
        exact ih s₁ (hdevice s₀ s₁ handle hroots hs₁) hs

/-- Every collection that returns satisfies `Collected`. -/
theorem collected_collect {fuel : Nat} {roots : List RootHandle} {handles : List PciIoHandle}
    {s : Collect} (hs : collect fuel roots handles = .ok s) : Collected s :=
  collect_invariant collected_init (fun _ handle h => h.getRoot handle)
    (fun _ _ _ h hs => h.getDevice hs) hs

end PciMisc
end EfiApps
