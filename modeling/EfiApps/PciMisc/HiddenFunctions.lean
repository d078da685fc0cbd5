import EfiApps.PciMisc.BusRestore
import EfiApps.PciMisc.Capabilities
import EfiApps.PciMisc.HiddenRounds
import EfiApps.PciMisc.Topology

/-!
# Which hidden functions are found

The scan behind a bridge tries function 0 of every device and, unless it breaks off,
the functions after it.  Whether to break off is read from the header of the bridge that
is being searched, not from the one of function 0, and a function 0 that does not answer
does not break it off either.

The hardware answers every read of a register alike here, and every allocation succeeds.
-/

namespace EfiApps
namespace PciMisc

/-! ## Filling in a record -/

/-- The status of the header read of `FillInPciIoDevice`, and what it reads. -/
def ConfigSpace.header (hw : ConfigSpace) (d : PciIoDevice) : EfiStatus × PciHeader :=
  let (status, dwords, _) := pciAccessRead hw.reader 0 d 32 0 16
  (status, .ofDwords dwords)

theorem ConfigSpace.header_congr (hw : ConfigSpace) {d d' : PciIoDevice}
    (hpath : d'.configPath = d.configPath) : hw.header d' = hw.header d := by
  unfold ConfigSpace.header pciAccessRead
  rw [hpath]

section fillIn

variable {hw : ConfigSpace} {d d' : PciIoDevice} {fuel t t' : Nat}

/-- The header read, at any time. -/
theorem pciAccessRead_header (hw : ConfigSpace) (d : PciIoDevice) (t : Nat) :
    ∃ dwords t', pciAccessRead hw.reader t d 32 0 16 = ((hw.header d).1, dwords, t') ∧
      PciHeader.ofDwords dwords = (hw.header d).2 := by
  unfold ConfigSpace.header pciAccessRead
  cases d.configPath with
  | none => exact ⟨_, _, rfl, rfl⟩
  | some path => exact ⟨_, _, rfl, rfl⟩

theorem saveBus_configPath (d : PciIoDevice) : (saveBus d).configPath = d.configPath := by
  have h := (filledIn_saveBus d).toSameIdentity
  unfold PciIoDevice.configPath
  rw [h.pciIo, h.pciRootBridgeIo, h.busNumber, h.deviceNumber, h.functionNumber]

/-- The search for the capability fails at most because there is none, which is no
failure of the function around it. -/
theorem fillInPciExpressCap_status {reader : ConfigReader} {status : EfiStatus}
    (h : fillInPciExpressCap reader fuel d t = .ok (status, d', t')) : status.isError = false := by
  unfold fillInPciExpressCap at h
  rw [Run.bind_eq_ok] at h
  obtain ⟨⟨status₁, found, t₁⟩, hlocate, h⟩ := h
  cases found with
  | none =>
      have hstatus := locateCapabilityRegBlock_status hlocate
      simp only [hstatus, if_true, Except.ok.injEq, Prod.mk.injEq] at h
      obtain ⟨rfl, -⟩ := h
      rfl
  | some found =>
      dsimp only at h
      split at h
      · simp only [Except.ok.injEq, Prod.mk.injEq] at h
        obtain ⟨rfl, -⟩ := h
        rfl
      · rename_i hok
        simp only [Except.ok.injEq, Prod.mk.injEq] at h
        obtain ⟨rfl, -⟩ := h
        simpa using hok

theorem fillInPciExpressCap_returns (reader : ConfigReader) :
    (fillInPciExpressCap reader fuel d t).Returns ↔
      (locateCapabilityRegBlock reader fuel d pciCapabilityIdPciExp 0 t).Returns := by
  have hsame : locateCapabilityRegBlock reader fuel { d with pciExpressCapabilityOffset := 0 }
      pciCapabilityIdPciExp 0 t = locateCapabilityRegBlock reader fuel d pciCapabilityIdPciExp 0 t := by
    apply locateCapabilityRegBlock_congr <;> rfl
  unfold fillInPciExpressCap
  dsimp only
  rw [hsame]
  cases locateCapabilityRegBlock reader fuel d pciCapabilityIdPciExp 0 t with
  | error e => simp
  | ok r =>
      obtain ⟨status, found, t₁⟩ := r
      cases found with
      | none => simp
      | some found =>
          simp only [Run.ok_bind, Run.returns_ok, iff_true]
          split <;> exact Run.returns_ok _

/-- With a readable header, `FillInPciIoDevice` fills in the record if it returns. -/
theorem fillInPciIoDevice_readable {status : EfiStatus} (hread : (hw.header d).1.isError = false)
    (h : fillInPciIoDevice hw.reader fuel d t = .ok (status, d', t')) :
    status.isError = false ∧ d'.pci = (hw.header d).2 ∧
      d'.pciType1 = (d.setHeader (hw.header d).2).pciType1 := by
  obtain ⟨dwords, t₁, haccess, hdwords⟩ := pciAccessRead_header hw d t
  rw [fillInPciIoDevice_eq, haccess] at h
  simp only [hread, Bool.false_eq_true, if_false, hdwords] at h
  obtain ⟨isPciExp, offset, cap, rfl, -⟩ := fillInPciExpressCap_cases h
  exact ⟨fillInPciExpressCap_status h, saveBus_pci _, saveBus_pciType1 _⟩

/-- It returns if the search for the capability does. -/
theorem fillInPciIoDevice_returns (hread : (hw.header d).1.isError = false) (fuel t : Nat) :
    ∃ t₁, (fillInPciIoDevice hw.reader fuel d t).Returns ↔
      (locateCapabilityRegBlock hw.reader fuel (d.setHeader (hw.header d).2)
        pciCapabilityIdPciExp 0 t₁).Returns := by
  obtain ⟨dwords, t₁, haccess, hdwords⟩ := pciAccessRead_header hw d t
  refine ⟨t₁, ?_⟩
  rw [fillInPciIoDevice_eq, haccess]
  simp only [hread, Bool.false_eq_true, if_false, hdwords]
  rw [fillInPciExpressCap_returns,
    locateCapabilityRegBlock_congr (saveBus_configPath _) (saveBus_pci _)]

/-- Without a readable header it leaves the record alone. -/
theorem fillInPciIoDevice_unreadable (hread : (hw.header d).1.isError = true) (fuel t : Nat) :
    ∃ t₁, fillInPciIoDevice hw.reader fuel d t = .ok ((hw.header d).1, d, t₁) := by
  obtain ⟨dwords, t₁, haccess, -⟩ := pciAccessRead_header hw d t
  refine ⟨t₁, ?_⟩
  rw [fillInPciIoDevice_eq, haccess]
  exact if_pos hread

end fillIn

/-! ## Records of one function -/

/-- The records are of the same function, and have the same header. -/
structure PciIoDevice.SameFunction (d d' : PciIoDevice) : Prop where
  pciRootBridgeIo : d'.pciRootBridgeIo = d.pciRootBridgeIo
  segmentNumber : d'.segmentNumber = d.segmentNumber
  busNumber : d'.busNumber = d.busNumber
  deviceNumber : d'.deviceNumber = d.deviceNumber
  functionNumber : d'.functionNumber = d.functionNumber
  pci : d'.pci = d.pci
  pciType1 : d'.pciType1 = d.pciType1
  isSegment : d'.isSegment = d.isSegment

namespace PciIoDevice.SameFunction

variable {d d' d'' : PciIoDevice}

theorem refl (d : PciIoDevice) : d.SameFunction d := by
  constructor <;> rfl

theorem trans (h : d.SameFunction d') (h' : d'.SameFunction d'') : d.SameFunction d'' := by
  obtain ⟨h₁, h₂, h₃, h₄, h₅, h₆, h₇, h₈⟩ := h
  obtain ⟨h₁', h₂', h₃', h₄', h₅', h₆', h₇', h₈'⟩ := h'
  exact ⟨h₁'.trans h₁, h₂'.trans h₂, h₃'.trans h₃, h₄'.trans h₄, h₅'.trans h₅, h₆'.trans h₆,
    h₇'.trans h₇, h₈'.trans h₈⟩

theorem of_eraseLinks (h : d'.eraseLinks = d.eraseLinks) : d.SameFunction d' := by
  constructor
  · exact (congrArg PciIoDevice.pciRootBridgeIo h :)
  · exact (congrArg PciIoDevice.segmentNumber h :)
  · exact (congrArg PciIoDevice.busNumber h :)
  · exact (congrArg PciIoDevice.deviceNumber h :)
  · exact (congrArg PciIoDevice.functionNumber h :)
  · exact (congrArg PciIoDevice.pci h :)
  · exact (congrArg PciIoDevice.pciType1 h :)
  · exact (congrArg PciIoDevice.isSegment h :)

end PciIoDevice.SameFunction

/-- The `Save` copies of the bus numbers are those of the record. -/
structure PciIoDevice.Settled (d : PciIoDevice) : Prop where
  busNumber : d.saveBusNumber = d.busNumber
  bridge : d.pciType1 = true → d.isSegment = false → ∀ reg, d.savedBus reg = d.bridgeBus reg

theorem PciIoDevice.FilledIn.settled {d d' : PciIoDevice} (h : d.FilledIn d') : d'.Settled := by
  refine ⟨h.saveBusNumber, fun htype _ reg => ?_⟩
  obtain ⟨hprimary, hsecondary, hsubordinate⟩ := h.saved htype
  cases reg
  · exact hprimary
  · exact hsecondary
  · exact hsubordinate

theorem PciIoDevice.Settled.congr {d d' : PciIoDevice} (h : d.Settled)
    (hsame : d'.eraseLinks = d.eraseLinks) : d'.Settled := by
  have hsave : d'.saveBusNumber = d.saveBusNumber := (congrArg PciIoDevice.saveBusNumber hsame :)
  obtain ⟨-, -, hbus, -, -, -, htype, hsegment⟩ := PciIoDevice.SameFunction.of_eraseLinks hsame
  constructor
  · rw [hsave, hbus]
    exact h.busNumber
  · intro htype' hsegment' reg
    rw [PciIoDevice.savedBus_of_eraseLinks reg hsame, PciIoDevice.bridgeBus_of_eraseLinks reg hsame]
    exact h.bridge (htype ▸ htype') (hsegment ▸ hsegment') reg

/-! ## The functions behind a bridge -/

/-- The record of a function behind a bridge with the record `r`, before anything about it
has been read. -/
def behind (r : PciIoDevice) (deviceNumber functionNumber : UInt8) : PciIoDevice where
  pciRootBridgeIo := r.pciRootBridgeIo
  segmentNumber := r.segmentNumber
  busNumber := r.pci.secondaryBus
  deviceNumber := deviceNumber
  functionNumber := functionNumber

section scan

variable (hw : ConfigSpace) (r : PciIoDevice)

/-- The function answers: its command register does not read as all ones. -/
def Responds (deviceNumber functionNumber : UInt8) : Prop :=
  (hw.read (behind r deviceNumber functionNumber) 16 pciCommandOffset).toUInt16 ≠ 0xffff

instance (deviceNumber functionNumber : UInt8) :
    Decidable (Responds hw r deviceNumber functionNumber) :=
  inferInstanceAs (Decidable (_ ≠ _))

/-- The header of the function. -/
def headerOf (deviceNumber functionNumber : UInt8) : PciHeader :=
  (hw.header (behind r deviceNumber functionNumber)).2

/-- The function exists by the PCI rules: a function after the first one only exists in a
multi-function device, and every device has a function 0. -/
def FunctionExists (deviceNumber functionNumber : UInt8) : Prop :=
  Responds hw r deviceNumber functionNumber ∧
    (functionNumber ≠ 0 → Responds hw r deviceNumber 0 ∧
      (headerOf hw r deviceNumber 0).isPciMultiFunc = true)

instance (deviceNumber functionNumber : UInt8) :
    Decidable (FunctionExists hw r deviceNumber functionNumber) :=
  inferInstanceAs (Decidable (_ ∧ (_ → _ ∧ _)))

/-- The functions that exist behind the bridge. -/
def existingFunctions : List (UInt8 × UInt8) :=
  deviceNumbers.flatMap fun d =>
    (functionNumbers.filter fun f => FunctionExists hw r d f).map fun f => (d, f)

/-- The headers of the functions that answer can be read. -/
def HeadersReadable : Prop :=
  ∀ d ∈ deviceNumbers, ∀ f ∈ functionNumbers, Responds hw r d f →
    (hw.header (behind r d f)).1.isError = false

/-- The function answers, and its header can be read. -/
def Readable (deviceNumber functionNumber : UInt8) : Prop :=
  Responds hw r deviceNumber functionNumber ∧
    (hw.header (behind r deviceNumber functionNumber)).1.isError = false

instance (deviceNumber functionNumber : UInt8) :
    Decidable (Readable hw r deviceNumber functionNumber) :=
  inferInstanceAs (Decidable (_ ∧ _))

/-- The functions of a device that the loop attaches. -/
def probedFunctions (deviceNumber : UInt8) : List UInt8 → List UInt8
  | [] => []
  | f :: rest =>
      if Readable hw r deviceNumber f then
        f :: if f = 0 ∧ r.pci.isPciMultiFunc = false then []
          else probedFunctions deviceNumber rest
      else probedFunctions deviceNumber rest

/-- The functions that the scan attaches. -/
def scannedFunctions : List (UInt8 × UInt8) :=
  deviceNumbers.flatMap fun d => (probedFunctions hw r d functionNumbers).map fun f => (d, f)

/-- The record of a function with its header read. -/
def withHeader (deviceNumber functionNumber : UInt8) : PciIoDevice :=
  (behind r deviceNumber functionNumber).setHeader (headerOf hw r deviceNumber functionNumber)

/-- The record with the command register that the scan reads first. -/
def PciIoDevice.setCommand (command : UInt16) (d : PciIoDevice) : PciIoDevice :=
  { d with pci := { d.pci with command := command } }

/-- The environment of the scan. -/
def staticEnv : HiddenEnv := ⟨hw.reader, fun _ => true⟩

/-- The capability list of the function ends. -/
def CapabilitiesEnd (deviceNumber functionNumber : UInt8) : Prop :=
  CapabilityListEnds hw (withHeader hw r deviceNumber functionNumber) pciCapabilityIdPciExp 0

/-! ## The state of the scan -/

/-- The record of the function `f` behind the bridge, as it is when it is attached. -/
structure FoundAs (f : UInt8 × UInt8) (c : PciIoDevice) : Prop where
  same : (withHeader hw r f.1 f.2).SameFunction c
  settled : c.Settled

/-- The scan behind the bridge `b`, which began in the state `s₀`, has attached the records
`found` for the functions `done`, and has changed nothing else. -/
structure Scanned (bridges : List Addr) (children : Addr → List Addr) (b : Addr) (s₀ : Search)
    (done : List (UInt8 × UInt8)) (found : List Addr) (s : Search) : Prop where
  links : TreeLinks s.bus.heap (bridges ++ found.filter fun a => (s.bus.heap a).pciType1)
    (Function.update children b (children b ++ found)) s.brk
  kept : ∀ a < s₀.brk, (s.bus.heap a).eraseLinks = (s₀.bus.heap a).eraseLinks
  records : List.Forall₂ (fun f a => FoundAs hw (s₀.bus.heap b) f (s.bus.heap a)) done found
  fresh : ∀ a ∈ found, s₀.brk ≤ a ∧ a < s.brk
  writes : s.bus.writes = s₀.bus.writes
  brk : s₀.brk ≤ s.brk
  count : s.pciDeviceCount = s₀.pciDeviceCount + found.length

variable {hw r}
variable {bridges : List Addr} {children : Addr → List Addr} {b : Addr} {s₀ s s' : Search}
  {done : List (UInt8 × UInt8)} {found : List Addr} {fuel : Nat}
  {deviceNumber functionNumber : UInt8}

theorem FoundAs.congr {f : UInt8 × UInt8} {c c' : PciIoDevice} (h : FoundAs hw r f c)
    (hsame : c'.eraseLinks = c.eraseLinks) : FoundAs hw r f c' :=
  ⟨h.same.trans (.of_eraseLinks hsame), h.settled.congr hsame⟩

theorem FoundAs.location_eq {f : UInt8 × UInt8} {c : PciIoDevice} (h : FoundAs hw r f c) :
    location c = location (behind r f.1 f.2) := by
  obtain ⟨-, hsegment, hbus, hdevice, hfunction, -⟩ := h.same
  unfold location
  rw [hsegment, hbus, hdevice, hfunction]
  rfl

/-- Before the scan. -/
theorem scanned_start (htree : TreeLinks s.bus.heap bridges children s.brk) (b : Addr) :
    Scanned hw bridges children b s [] [] s where
  links := by
    rw [List.filter_nil, List.append_nil, List.append_nil, Function.update_eq_self]
    exact htree
  kept _ _ := rfl
  records := .nil
  fresh := by simp
  writes := rfl
  brk := le_rfl
  count := rfl

/-- The candidate for a function, in any state of the scan. -/
theorem Scanned.candidate_eq (h : Scanned hw bridges children b s₀ done found s)
    (hb : b < s₀.brk) (d f : UInt8) :
    candidate s.bus.heap b d f = { behind (s₀.bus.heap b) d f with
      pciDeviceID := (s.bus.heap hostBridge).nextPciDeviceID } := by
  have hio : (s.bus.heap b).pciRootBridgeIo = (s₀.bus.heap b).pciRootBridgeIo :=
    (congrArg PciIoDevice.pciRootBridgeIo (h.kept b hb) :)
  have hsegment : (s.bus.heap b).segmentNumber = (s₀.bus.heap b).segmentNumber :=
    (congrArg PciIoDevice.segmentNumber (h.kept b hb) :)
  have hpci : (s.bus.heap b).pci = (s₀.bus.heap b).pci :=
    (congrArg PciIoDevice.pci (h.kept b hb) :)
  unfold candidate behind
  rw [hio, hsegment, hpci]

/-- A new child is one more function. -/
theorem Scanned.attached (h : Scanned hw bridges children b s₀ done found s)
    (hb : InTree children b) {d : PciIoDevice} (hunlinked : d.Unlinked)
    (hid : d.pciDeviceID = (s.bus.heap hostBridge).nextPciDeviceID) {f : UInt8 × UInt8}
    (hfound : FoundAs hw (s₀.bus.heap b) f d)
    (hheap : s'.bus.heap = PciMisc.attached s.bus.heap b s.brk d)
    (hwrites : s'.bus.writes = s.bus.writes) (hbrk : s'.brk = s.brk + 1)
    (hcount : s'.pciDeviceCount = s.pciDeviceCount + 1) :
    Scanned hw bridges children b s₀ (done ++ [f]) (found ++ [s.brk]) s' := by
  have hregisters := sameRegisters_attached s.bus.heap b s.brk d
  -- The records that were there keep their registers.
  have hold : ∀ a < s.brk, (s'.bus.heap a).eraseLinks = (s.bus.heap a).eraseLinks := by
    intro a ha
    rw [hheap, hregisters a, Function.update_of_ne (ne_of_lt ha)]
  have hnew : (s'.bus.heap s.brk).eraseLinks = d.eraseLinks := by
    rw [hheap, hregisters s.brk, Function.update_self]
  have htype : ∀ a ∈ found, (s'.bus.heap a).pciType1 = (s.bus.heap a).pciType1 := fun a ha =>
    (congrArg PciIoDevice.pciType1 (hold a (h.fresh a ha).2) :)
  have htypeNew : (s'.bus.heap s.brk).pciType1 = d.pciType1 :=
    (congrArg PciIoDevice.pciType1 hnew :)
  have hfilter : (found.filter fun a => (s'.bus.heap a).pciType1) =
      found.filter fun a => (s.bus.heap a).pciType1 :=
    List.filter_congr htype
  have hin : InTree (Function.update children b (children b ++ found)) b := by
    rcases hb with hhost | ⟨p, hp⟩
    · exact .inl hhost
    · refine .inr ⟨p, ?_⟩
      by_cases hpb : p = b
      · rw [hpb, Function.update_self]
        exact List.mem_append_left _ (hpb ▸ hp)
      · rwa [Function.update_of_ne hpb]
  have htree := h.links.attached hin hunlinked hid
  rw [← hheap, ← hbrk] at htree
  constructor
  · rw [Function.update_self, Function.update_idem, List.append_assoc] at htree
    rw [List.filter_append, hfilter, List.filter_singleton, htypeNew]
    cases hbridge : d.pciType1 with
    | true =>
        rw [hbridge, if_pos rfl, List.append_assoc] at htree
        exact htree
    | false =>
        rw [hbridge, if_neg Bool.false_ne_true] at htree
        simpa using htree
  · intro a ha
    exact (hold a (lt_of_lt_of_le ha h.brk)).trans (h.kept a ha)
  · have hrecords := (List.forall₂_and_left _ _).mpr
      ⟨fun a ha => (h.fresh a ha).2, h.records.flip⟩
    refine List.rel_append ?_ (.cons (hfound.congr hnew) .nil)
    exact (hrecords.imp fun a f hfa => hfa.2.congr (hold a hfa.1)).flip
  · intro a ha
    rw [hbrk]
    rcases List.mem_append.mp ha with ha | ha
    · exact ⟨(h.fresh a ha).1, Nat.lt_succ_of_lt (h.fresh a ha).2⟩
    · obtain rfl := List.mem_singleton.mp ha
      exact ⟨h.brk, Nat.lt_succ_self _⟩
  · exact hwrites.trans h.writes
  · exact h.brk.trans (hbrk ▸ Nat.le_succ _)
  · rw [hcount, h.count, List.length_append]
    rfl

/-! ## One function -/

/-- The state after a candidate has been given up. -/
theorem Scanned.rejected (h : Scanned hw bridges children b s₀ done found s) (time : Nat) :
    Scanned hw bridges children b s₀ done found
      { s with allocations := s.allocations + 1, brk := s.brk + 1, time := time } where
  links := h.links.grow (Nat.le_succ _)
  kept := h.kept
  records := h.records
  fresh a ha := ⟨(h.fresh a ha).1, Nat.lt_succ_of_lt (h.fresh a ha).2⟩
  writes := h.writes
  brk := h.brk.trans (Nat.le_succ _)
  count := h.count

/-- The body of the loop over the functions, on a device that does not change. -/
theorem tryFunction_static (fuel : Nat) (htree : TreeLinks s₀.bus.heap bridges children s₀.brk)
    (hb : b ∈ bridges) (h : Scanned hw bridges children b s₀ done found s) (d f : UInt8) :
    ∃ time, tryFunction (staticEnv hw) fuel b d f s =
      let rejected : Search :=
        { s with allocations := s.allocations + 1, brk := s.brk + 1, time := time }
      if Responds hw (s₀.bus.heap b) d f then do
        let (status, c, time) ← fillInPciIoDevice hw.reader fuel
          ((candidate s.bus.heap b d f).setCommand
            (hw.read (behind (s₀.bus.heap b) d f) 16 pciCommandOffset).toUInt16) time
        if status.isError then .ok ({ rejected with time := time }, false)
        else do
          let heap ← attach s.bus.heap b s.brk c
          .ok ({ rejected with
              bus := { s.bus with heap := heap }
              time := time
              pciDeviceCount := s.pciDeviceCount + 1 },
            decide (f = 0) && !(heap b).pci.isPciMultiFunc)
      else .ok (rejected, false) := by
  have hread : (candidate s.bus.heap b d f).configPath =
      (behind (s₀.bus.heap b) d f).configPath := by
    rw [h.candidate_eq (htree.lt_of_mem_bridges hb)]
    rfl
  obtain ⟨time, htime⟩ :=
    pciRead_reader hw s.time (candidate s.bus.heap b d f) 16 pciCommandOffset
  rw [hw.read_congr hread] at htime
  have htype : (s.bus.heap b).pciType1 = true :=
    ((h.links.bridge b).mp (List.mem_append_left _ hb)).2
  refine ⟨time, ?_⟩
  unfold tryFunction
  simp only [staticEnv, Bool.true_eq_false, if_false, htype, htime]
  by_cases hresponds : Responds hw (s₀.bus.heap b) d f
  · rw [if_pos hresponds]
    exact if_neg hresponds
  · rw [if_neg hresponds]
    exact if_pos (not_not.mp hresponds)

/-- The way to a candidate. -/
theorem Scanned.configPath (h : Scanned hw bridges children b s₀ done found s)
    (hlt : b < s₀.brk) (d f : UInt8) (command : UInt16) :
    ((candidate s.bus.heap b d f).setCommand command).configPath =
      (behind (s₀.bus.heap b) d f).configPath := by
  rw [h.candidate_eq hlt]
  rfl

/-- A function that cannot be read is passed over. -/
theorem tryFunction_silent (fuel : Nat) (htree : TreeLinks s₀.bus.heap bridges children s₀.brk)
    (hb : b ∈ bridges) (h : Scanned hw bridges children b s₀ done found s) {d f : UInt8}
    (hsilent : ¬ Readable hw (s₀.bus.heap b) d f) :
    ∃ s', tryFunction (staticEnv hw) fuel b d f s = .ok (s', false) ∧
      Scanned hw bridges children b s₀ done found s' := by
  obtain ⟨time, hstatic⟩ := tryFunction_static fuel htree hb h d f
  rw [hstatic]
  by_cases hresponds : Responds hw (s₀.bus.heap b) d f
  · have hheader := hw.header_congr (h.configPath (htree.lt_of_mem_bridges hb) d f
      (hw.read (behind (s₀.bus.heap b) d f) 16 pciCommandOffset).toUInt16)
    have herror : (hw.header (behind (s₀.bus.heap b) d f)).1.isError = true := by
      by_contra hok
      exact hsilent ⟨hresponds, by simpa using hok⟩
    rw [← hheader] at herror
    obtain ⟨time', hfill⟩ := fillInPciIoDevice_unreadable herror fuel time
    dsimp only
    rw [if_pos hresponds, hfill, Run.ok_bind]
    dsimp only
    rw [if_pos herror]
    exact ⟨_, rfl, h.rejected time'⟩
  · dsimp only
    rw [if_neg hresponds]
    exact ⟨_, rfl, h.rejected time⟩

/-- A function that can be read is attached if its capability list ends. -/
theorem tryFunction_readable (htree : TreeLinks s₀.bus.heap bridges children s₀.brk)
    (hb : b ∈ bridges) (h : Scanned hw bridges children b s₀ done found s) {d f : UInt8}
    (hreadable : Readable hw (s₀.bus.heap b) d f) :
    (∃ t, (tryFunction (staticEnv hw) fuel b d f s).Returns ↔
      (locateCapabilityRegBlock hw.reader fuel (withHeader hw (s₀.bus.heap b) d f)
        pciCapabilityIdPciExp 0 t).Returns) ∧
    ∀ s' stop, tryFunction (staticEnv hw) fuel b d f s = .ok (s', stop) →
      Scanned hw bridges children b s₀ (done ++ [(d, f)]) (found ++ [s.brk]) s' ∧
        stop = (decide (f = 0) && !(s₀.bus.heap b).pci.isPciMultiFunc) := by
  have hlt := htree.lt_of_mem_bridges hb
  obtain ⟨hresponds, hread⟩ := hreadable
  obtain ⟨time, hstatic⟩ := tryFunction_static fuel htree hb h d f
  dsimp only at hstatic
  rw [if_pos hresponds] at hstatic
  rw [hstatic]
  have hpath := h.configPath hlt d f
    (hw.read (behind (s₀.bus.heap b) d f) 16 pciCommandOffset).toUInt16
  have hcommand : (candidate s.bus.heap b d f).SameIdentity ((candidate s.bus.heap b d f).setCommand
      (hw.read (behind (s₀.bus.heap b) d f) 16 pciCommandOffset).toUInt16) := by
    constructor <;> rfl
  have htype : ((candidate s.bus.heap b d f).setCommand
      (hw.read (behind (s₀.bus.heap b) d f) 16 pciCommandOffset).toUInt16).pciType1 = false := rfl
  generalize (candidate s.bus.heap b d f).setCommand
    (hw.read (behind (s₀.bus.heap b) d f) 16 pciCommandOffset).toUInt16 = c at hpath hcommand htype ⊢
  have hheader := hw.header_congr hpath
  rw [← hheader] at hread
  -- The header can be read, so it is up to the capability list whether the function returns.
  obtain ⟨t₁, hreturns⟩ := fillInPciIoDevice_returns hread fuel time
  have hlocate : locateCapabilityRegBlock hw.reader fuel (c.setHeader (hw.header c).2)
      pciCapabilityIdPciExp 0 t₁ =
    locateCapabilityRegBlock hw.reader fuel (withHeader hw (s₀.bus.heap b) d f)
      pciCapabilityIdPciExp 0 t₁ := by
    apply locateCapabilityRegBlock_congr
    · exact hpath
    · exact congrArg Prod.snd hheader
  rw [hlocate] at hreturns
  cases hfill : fillInPciIoDevice hw.reader fuel c time with
  | error e =>
      rw [hfill] at hreturns
      refine ⟨⟨t₁, ?_⟩, fun s' stop h => by cases h⟩
      simpa using hreturns
  | ok r =>
      obtain ⟨status, c', time'⟩ := r
      rw [hfill] at hreturns
      obtain ⟨hstatus, hpci, htype'⟩ := fillInPciIoDevice_readable hread hfill
      have hc := fillInPciIoDevice_filledIn hfill hstatus
      have hsame := hcommand.trans hc.toSameIdentity
      rw [h.candidate_eq hlt] at hsame
      have hbs : b < s.brk := lt_of_lt_of_le hlt h.brk
      simp only [Run.ok_bind, hstatus, Bool.false_eq_true, if_false,
        attach_eq c' (ne_of_lt hbs) (h.links.lists.endsAgree b)]
      refine ⟨⟨t₁, by simpa using hreturns⟩, fun s' stop hrun => ?_⟩
      simp only [Except.ok.injEq, Prod.mk.injEq] at hrun
      obtain ⟨rfl, rfl⟩ := hrun
      -- The record has the location of the function and what its registers say.
      have hfound : FoundAs hw (s₀.bus.heap b) (d, f) c' := by
        refine ⟨⟨hsame.pciRootBridgeIo, hsame.segmentNumber, hsame.busNumber, hsame.deviceNumber,
          hsame.functionNumber, ?_, ?_, hsame.isSegment⟩, hc.settled⟩
        · rw [hpci, hheader]
          rfl
        · rw [htype', PciIoDevice.setHeader, htype, hheader]
          rfl
      have hunlinked : c'.Unlinked :=
        ⟨hsame.chain, hsame.parent, hsame.firstChild, hsame.lastChild, hsame.nextSibling⟩
      refine ⟨h.attached (htree.inTree_of_mem_bridges hb) hunlinked hsame.pciDeviceID hfound
        rfl rfl rfl rfl, ?_⟩
      have hmulti : (attached s.bus.heap b s.brk c' b).pci = (s₀.bus.heap b).pci := by
        rw [(sameRegisters_attached s.bus.heap b s.brk c').pci,
          Function.update_of_ne (ne_of_lt hbs)]
        exact (congrArg PciIoDevice.pci (h.kept b hlt) :)
      rw [hmulti]

/-! ## The functions of a device -/

/-- The functions that the loop attaches, and why it came to an end. -/
theorem searchFunctions_scanned (htree : TreeLinks s₀.bus.heap bridges children s₀.brk)
    (hb : b ∈ bridges) {functions : List UInt8}
    (hs : Scanned hw bridges children b s₀ done found s)
    (h : searchFunctions (staticEnv hw) fuel b deviceNumber functions s = .ok s') :
    (∃ found', Scanned hw bridges children b s₀
      (done ++ (probedFunctions hw (s₀.bus.heap b) deviceNumber functions).map
        fun f => (deviceNumber, f)) found' s') ∧
    ∀ f ∈ probedFunctions hw (s₀.bus.heap b) deviceNumber functions,
      CapabilitiesEnd hw (s₀.bus.heap b) deviceNumber f := by
  induction functions generalizing done found s with
  | nil =>
      obtain rfl := Except.ok.inj h
      exact ⟨⟨found, by simpa [probedFunctions] using hs⟩, by simp [probedFunctions]⟩
  | cons f rest ih =>
      rw [searchFunctions, Run.bind_eq_ok] at h
      obtain ⟨⟨s₁, stop⟩, htry, h⟩ := h
      by_cases hreadable : Readable hw (s₀.bus.heap b) deviceNumber f
      · obtain ⟨⟨t, hreturns⟩, hstep⟩ := tryFunction_readable htree hb hs hreadable
        obtain ⟨hs₁, rfl⟩ := hstep s₁ stop htry
        have hends : CapabilitiesEnd hw (s₀.bus.heap b) deviceNumber f :=
          capabilityListEnds_of_returns (hreturns.mp ⟨_, htry⟩)
        rw [probedFunctions, if_pos hreadable]
        dsimp only at h
        by_cases hstop : f = 0 ∧ (s₀.bus.heap b).pci.isPciMultiFunc = false
        · rw [if_pos (by simp [hstop])] at h
          obtain rfl := Except.ok.inj h
          rw [if_pos hstop]
          exact ⟨⟨_, hs₁⟩, by simpa using hends⟩
        · rw [if_neg (by simpa using hstop)] at h
          rw [if_neg hstop]
          obtain ⟨⟨found', hs'⟩, hrestEnds⟩ := ih hs₁ h
          refine ⟨⟨found', by simpa using hs'⟩, fun g hg => ?_⟩
          rcases List.mem_cons.mp hg with rfl | hg
          · exact hends
          · exact hrestEnds g hg
      · obtain ⟨s₂, htry₂, hs₂⟩ := tryFunction_silent fuel htree hb hs hreadable
        obtain ⟨rfl, rfl⟩ : s₂ = s₁ ∧ false = stop := by
          simpa using Except.ok.inj (htry₂.symm.trans htry)
        rw [probedFunctions, if_neg hreadable]
        exact ih hs₂ h

/-- It does come to an end with enough fuel for the capability lists of those functions. -/
theorem searchFunctions_returns (htree : TreeLinks s₀.bus.heap bridges children s₀.brk)
    (hb : b ∈ bridges) {functions : List UInt8}
    (hfuel : ∀ f ∈ probedFunctions hw (s₀.bus.heap b) deviceNumber functions, ∀ t,
      (locateCapabilityRegBlock hw.reader fuel (withHeader hw (s₀.bus.heap b) deviceNumber f)
        pciCapabilityIdPciExp 0 t).Returns)
    (hs : Scanned hw bridges children b s₀ done found s) :
    (searchFunctions (staticEnv hw) fuel b deviceNumber functions s).Returns := by
  induction functions generalizing done found s with
  | nil => exact ⟨s, rfl⟩
  | cons f rest ih =>
      rw [searchFunctions]
      by_cases hreadable : Readable hw (s₀.bus.heap b) deviceNumber f
      · rw [probedFunctions, if_pos hreadable] at hfuel
        obtain ⟨⟨t, hreturns⟩, hstep⟩ := tryFunction_readable htree hb hs hreadable
        obtain ⟨⟨s₁, stop⟩, htry⟩ := hreturns.mpr (hfuel f (by simp) t)
        obtain ⟨hs₁, rfl⟩ := hstep s₁ stop htry
        rw [htry, Run.ok_bind]
        dsimp only
        by_cases hstop : f = 0 ∧ (s₀.bus.heap b).pci.isPciMultiFunc = false
        · rw [if_pos (by simp [hstop])]
          exact Run.returns_ok _
        · rw [if_neg (by simpa using hstop)]
          rw [if_neg hstop] at hfuel
          exact ih (fun g hg => hfuel g (List.mem_cons_of_mem f hg)) hs₁
      · obtain ⟨s₁, htry, hs₁⟩ := tryFunction_silent fuel htree hb hs hreadable
        rw [probedFunctions, if_neg hreadable] at hfuel
        rw [htry, Run.ok_bind]
        exact ih hfuel hs₁

/-! ## The whole scan -/

/-- The scan has gone through the devices `devices`. -/
def ScannedDevices (hw : ConfigSpace) (bridges : List Addr) (children : Addr → List Addr)
    (b : Addr) (s₀ : Search) (devices : List UInt8) (s : Search) : Prop :=
  (∃ found, Scanned hw bridges children b s₀
    (devices.flatMap fun d =>
      (probedFunctions hw (s₀.bus.heap b) d functionNumbers).map fun f => (d, f)) found s) ∧
  ∀ d ∈ devices, ∀ f ∈ probedFunctions hw (s₀.bus.heap b) d functionNumbers,
    CapabilitiesEnd hw (s₀.bus.heap b) d f

theorem ScannedDevices.step (htree : TreeLinks s₀.bus.heap bridges children s₀.brk)
    (hb : b ∈ bridges) {devices : List UInt8} {d : UInt8}
    (hs : ScannedDevices hw bridges children b s₀ devices s)
    (h : searchFunctions (staticEnv hw) fuel b d functionNumbers s = .ok s') :
    ScannedDevices hw bridges children b s₀ (devices ++ [d]) s' := by
  obtain ⟨⟨found, hscanned⟩, hends⟩ := hs
  obtain ⟨⟨found', hs'⟩, hnew⟩ := searchFunctions_scanned htree hb hscanned h
  refine ⟨⟨found', by simpa using hs'⟩, fun c hc => ?_⟩
  rcases List.mem_append.mp hc with hc | hc
  · exact hends c hc
  · obtain rfl : c = d := by simpa using hc
    exact hnew

theorem searchDevices_scanned (s₀ : Search) (htree : TreeLinks s₀.bus.heap bridges children s₀.brk)
    (hb : b ∈ bridges) (h : searchDevices (staticEnv hw) fuel b s₀ = .ok s') :
    (∃ found, Scanned hw bridges children b s₀ (scannedFunctions hw (s₀.bus.heap b)) found s') ∧
      ∀ f ∈ scannedFunctions hw (s₀.bus.heap b), CapabilitiesEnd hw (s₀.bus.heap b) f.1 f.2 := by
  have hstart : ScannedDevices hw bridges children b s₀ [] s₀ :=
    ⟨⟨[], scanned_start htree b⟩, by simp⟩
  have hend := foldlM_visited (I := ScannedDevices hw bridges children b s₀)
    (fun _ _ _ _ _ hs h => hs.step htree hb h) hstart h
  refine ⟨hend.1, fun _ hmem => ?_⟩
  obtain ⟨d, hd, hmem⟩ := List.mem_flatMap.mp hmem
  obtain ⟨f, hf, rfl⟩ := List.mem_map.mp hmem
  exact hend.2 d hd f hf

theorem searchDevices_returns (s₀ : Search) (fuel : Nat)
    (htree : TreeLinks s₀.bus.heap bridges children s₀.brk) (hb : b ∈ bridges)
    (hfuel : ∀ f ∈ scannedFunctions hw (s₀.bus.heap b), ∀ t,
      (locateCapabilityRegBlock hw.reader fuel (withHeader hw (s₀.bus.heap b) f.1 f.2)
        pciCapabilityIdPciExp 0 t).Returns) :
    (searchDevices (staticEnv hw) fuel b s₀).Returns := by
  have hstart : ScannedDevices hw bridges children b s₀ [] s₀ :=
    ⟨⟨[], scanned_start htree b⟩, by simp⟩
  refine foldlM_visits (I := ScannedDevices hw bridges children b s₀)
    (fun _ _ _ _ _ hs h => hs.step htree hb h) (fun _ d hd s hs => ?_) hstart
  obtain ⟨⟨found, hscanned⟩, -⟩ := hs
  refine searchFunctions_returns htree hb (fun f hf => ?_) hscanned
  exact hfuel (d, f) (List.mem_flatMap.mpr ⟨d, hd, List.mem_map_of_mem hf⟩)

end scan

/-! ## Finding what exists -/

/-- The scan returns, and then the children of the bridge are exactly the functions that
exist behind it, each once. -/
def FindsExisting (hw : ConfigSpace) (b : Addr) (s : Search) : Prop :=
  ∃ fuel₁, ∀ fuel ≥ fuel₁, ∃ s' found,
    searchDevices (staticEnv hw) fuel b s = .ok s' ∧
    Linked (fun a => (s'.bus.heap a).nextSibling) (s'.bus.heap b).firstChild found ∧
    (∀ a ∈ found, (s'.bus.heap a).parent = some b) ∧
    (found.map fun a => location (s'.bus.heap a)).Perm
      ((existingFunctions hw (s.bus.heap b)).map fun f => location (behind (s.bus.heap b) f.1 f.2))

/-- Every function after function 0 that answers belongs to a device whose function 0
answers too, with the multi-function bit that the bridge has. -/
def MultiFunctionsAgree (hw : ConfigSpace) (r : PciIoDevice) : Prop :=
  ∀ d ∈ deviceNumbers, ∀ f ∈ functionNumbers, f ≠ 0 → Responds hw r d f →
    Responds hw r d 0 ∧ (headerOf hw r d 0).isPciMultiFunc = r.pci.isPciMultiFunc

section finds

variable {hw : ConfigSpace} {r : PciIoDevice}

/-- After function 0 the loop does not break off. -/
theorem probedFunctions_later {d : UInt8} {functions : List UInt8} (h : 0 ∉ functions) :
    probedFunctions hw r d functions = functions.filter fun f => Readable hw r d f := by
  induction functions with
  | nil => rfl
  | cons f rest ih =>
      obtain ⟨hf, hrest⟩ : f ≠ 0 ∧ 0 ∉ rest := by
        simp only [List.mem_cons, not_or] at h
        exact ⟨Ne.symm h.1, h.2⟩
      have hgoes : ¬ (f = 0 ∧ r.pci.isPciMultiFunc = false) := fun hstop => hf hstop.1
      rw [probedFunctions, if_neg hgoes, ih hrest, List.filter_cons]
      simp only [decide_eq_true_eq]

/-- A function after function 0 is attached unless function 0 is too and the bridge is no
multi-function device. -/
theorem probedFunctions_eq (d : UInt8) :
    probedFunctions hw r d functionNumbers =
      functionNumbers.filter fun f => Readable hw r d f ∧
        (f ≠ 0 → Readable hw r d 0 → r.pci.isPciMultiFunc = true) := by
  obtain ⟨later, hlater, hzero⟩ : ∃ later, functionNumbers = 0 :: later ∧ (0 : UInt8) ∉ later :=
    ⟨[1, 2, 3, 4, 5, 6, 7], rfl, by decide⟩
  have hne : ∀ f ∈ later, f ≠ 0 := fun f hf hzero' => hzero (hzero' ▸ hf)
  rw [hlater, probedFunctions, probedFunctions_later hzero, List.filter_cons]
  by_cases hreadable : Readable hw r d 0
  · simp only [hreadable, if_true, true_and, ne_eq, not_true_eq_false, false_implies,
      decide_true, true_implies]
    refine congrArg (0 :: ·) ?_
    cases hmulti : r.pci.isPciMultiFunc with
    | true => simp
    | false =>
        rw [if_pos rfl]
        refine (List.filter_eq_nil_iff.mpr fun f hf => ?_).symm
        simp [hne f hf]
  · simp [hreadable]

theorem mem_scannedFunctions {d f : UInt8} :
    (d, f) ∈ scannedFunctions hw r ↔ d ∈ deviceNumbers ∧ f ∈ functionNumbers ∧
      Readable hw r d f ∧ (f ≠ 0 → Readable hw r d 0 → r.pci.isPciMultiFunc = true) := by
  unfold scannedFunctions
  simp only [probedFunctions_eq, List.mem_flatMap, List.mem_map, List.mem_filter,
    decide_eq_true_eq, Prod.mk.injEq]
  constructor
  · rintro ⟨d', hd, f', ⟨hf, h⟩, rfl, rfl⟩
    exact ⟨hd, hf, h⟩
  · rintro ⟨hd, hf, h⟩
    exact ⟨d, hd, f, ⟨hf, h⟩, rfl, rfl⟩

theorem mem_existingFunctions {d f : UInt8} :
    (d, f) ∈ existingFunctions hw r ↔
      d ∈ deviceNumbers ∧ f ∈ functionNumbers ∧ FunctionExists hw r d f := by
  unfold existingFunctions
  simp only [List.mem_flatMap, List.mem_map, List.mem_filter, decide_eq_true_eq, Prod.mk.injEq]
  constructor
  · rintro ⟨d', hd, f', ⟨hf, h⟩, rfl, rfl⟩
    exact ⟨hd, hf, h⟩
  · rintro ⟨hd, hf, h⟩
    exact ⟨d, hd, f, ⟨hf, h⟩, rfl, rfl⟩

/-- Where the headers can be read, answering is enough. -/
theorem HeadersReadable.readable_iff (h : HeadersReadable hw r) {d f : UInt8}
    (hd : d ∈ deviceNumbers) (hf : f ∈ functionNumbers) :
    Readable hw r d f ↔ Responds hw r d f :=
  ⟨And.left, fun hresponds => ⟨hresponds, h d hd f hf hresponds⟩⟩

theorem zero_mem_functionNumbers : (0 : UInt8) ∈ functionNumbers := by decide

theorem scannedFunctions_eq (hreadable : HeadersReadable hw r) (h : MultiFunctionsAgree hw r) :
    scannedFunctions hw r = existingFunctions hw r := by
  unfold scannedFunctions existingFunctions
  refine List.flatMap_congr fun d hd => ?_
  rw [probedFunctions_eq]
  refine congrArg (List.map _) (List.filter_congr fun f hf => ?_)
  rw [decide_eq_decide, hreadable.readable_iff hd hf,
    hreadable.readable_iff hd zero_mem_functionNumbers]
  refine and_congr_right fun hresponds => forall_congr' fun hf0 => ?_
  obtain ⟨hzero, hmulti⟩ := h d hd f hf hf0 hresponds
  simp only [hzero, hmulti, true_and, true_implies]

/-- If the scan attaches what exists, then the header of the bridge has told it what
the headers of the functions would have. -/
theorem multiFunctionsAgree_of_mem (hreadable : HeadersReadable hw r)
    (h : ∀ d f, (d, f) ∈ scannedFunctions hw r ↔ (d, f) ∈ existingFunctions hw r) :
    MultiFunctionsAgree hw r := by
  intro d hd f hf hf0 hresponds
  have hiff := h d f
  rw [mem_scannedFunctions, mem_existingFunctions, hreadable.readable_iff hd hf,
    hreadable.readable_iff hd zero_mem_functionNumbers] at hiff
  by_cases hzero : Responds hw r d 0
  · refine ⟨hzero, Bool.eq_iff_iff.mpr ⟨fun hmulti => ?_, fun hmulti => ?_⟩⟩
    · exact (hiff.mpr ⟨hd, hf, hresponds, fun _ => ⟨hzero, hmulti⟩⟩).2.2.2 hf0 hzero
    · exact ((hiff.mp ⟨hd, hf, hresponds, fun _ _ => hmulti⟩).2.2.2 hf0).2
  · have hexists := (hiff.mp ⟨hd, hf, hresponds, fun _ h => absurd h hzero⟩).2.2.2 hf0
    exact absurd hexists.1 hzero

variable {b : Addr} {s s' : Search} {bridges : List Addr} {children : Addr → List Addr}

/-- The child list after the scan, of a bridge that had no children. -/
theorem Scanned.children_eq {done : List (UInt8 × UInt8)} {found : List Addr}
    (h : Scanned hw bridges children b s done found s')
    (htree : TreeLinks s.bus.heap bridges children s.brk)
    (hnone : (s.bus.heap b).firstChild = none) :
    Linked (fun a => (s'.bus.heap a).nextSibling) (s'.bus.heap b).firstChild found ∧
      (∀ a ∈ found, (s'.bus.heap a).parent = some b) ∧
      (found.map fun a => location (s'.bus.heap a)) =
        done.map fun f => location (behind (s.bus.heap b) f.1 f.2) := by
  have hfirst := htree.lists.firstChild b
  rw [hnone, eq_comm, List.head?_eq_none_iff] at hfirst
  have hchildren : Function.update children b (children b ++ found) b = found := by
    rw [Function.update_self, hfirst, List.nil_append]
  have hlinked := h.links.lists.linked b
  have howner := h.links.lists.owner b
  rw [hchildren] at hlinked howner
  refine ⟨hlinked, howner, ?_⟩
  rw [← List.forall₂_eq_eq_eq, List.forall₂_map_left_iff, List.forall₂_map_right_iff]
  exact h.records.flip.imp fun _ _ hfound => hfound.location_eq

/-- The location tells the functions behind a bridge apart. -/
theorem behind_location_injective (r : PciIoDevice) :
    Function.Injective fun f : UInt8 × UInt8 => location (behind r f.1 f.2) := by
  rintro ⟨d, f⟩ ⟨d', f'⟩ h
  simp only [location, behind, EmbeddingLike.apply_eq_iff_eq, Prod.mk.injEq, true_and,
    UInt8.toNat_inj] at h
  exact Prod.ext h.1 h.2

theorem FindsExisting.agrees (h : FindsExisting hw b s)
    (htree : TreeLinks s.bus.heap bridges children s.brk) (hb : b ∈ bridges)
    (hnone : (s.bus.heap b).firstChild = none) (hreadable : HeadersReadable hw (s.bus.heap b)) :
    MultiFunctionsAgree hw (s.bus.heap b) ∧ ∀ f ∈ existingFunctions hw (s.bus.heap b),
      CapabilitiesEnd hw (s.bus.heap b) f.1 f.2 := by
  obtain ⟨fuel₁, hfinds⟩ := h
  obtain ⟨s', found, hrun, hlinked, -, hperm⟩ := hfinds fuel₁ le_rfl
  obtain ⟨⟨found', hscanned⟩, hends⟩ := searchDevices_scanned s htree hb hrun
  obtain ⟨hlinked', -, hlocations⟩ := hscanned.children_eq htree hnone
  obtain rfl := hlinked.unique hlinked'
  rw [hlocations] at hperm
  have hmem : ∀ f, f ∈ scannedFunctions hw (s.bus.heap b) ↔
      f ∈ existingFunctions hw (s.bus.heap b) := by
    intro f
    have hinj := behind_location_injective (s.bus.heap b)
    rw [← List.mem_map_of_injective hinj, ← List.mem_map_of_injective hinj]
    exact hperm.mem_iff
  exact ⟨multiFunctionsAgree_of_mem hreadable fun d f => hmem (d, f),
    fun f hf => hends f ((hmem f).mpr hf)⟩

theorem findsExisting_of_agrees (htree : TreeLinks s.bus.heap bridges children s.brk)
    (hb : b ∈ bridges) (hnone : (s.bus.heap b).firstChild = none)
    (hreadable : HeadersReadable hw (s.bus.heap b)) (hagree : MultiFunctionsAgree hw (s.bus.heap b))
    (hends : ∀ f ∈ existingFunctions hw (s.bus.heap b),
      CapabilitiesEnd hw (s.bus.heap b) f.1 f.2) :
    FindsExisting hw b s := by
  rw [← scannedFunctions_eq hreadable hagree] at hends
  obtain ⟨fuel₁, hfuel⟩ := exists_forall_mem_of_eventually fun f hf =>
    CapabilityListEnds.returns (hends f hf)
  refine ⟨fuel₁, fun fuel hge => ?_⟩
  obtain ⟨s', hrun⟩ := searchDevices_returns s fuel htree hb (hfuel fuel hge)
  obtain ⟨⟨found, hscanned⟩, -⟩ := searchDevices_scanned s htree hb hrun
  obtain ⟨hlinked, hparent, hlocations⟩ := hscanned.children_eq htree hnone
  rw [scannedFunctions_eq hreadable hagree] at hlocations
  exact ⟨s', found, hrun, hlinked, hparent, .of_eq hlocations⟩

/-- The scan behind a bridge without children finds what exists there exactly if the
functions after function 0 that answer belong to devices with the multi-function bit of
the bridge, and no capability list of a function that exists is a ring. -/
theorem searchDevices_findsExisting_iff (htree : TreeLinks s.bus.heap bridges children s.brk)
    (hb : b ∈ bridges) (hnone : (s.bus.heap b).firstChild = none)
    (hreadable : HeadersReadable hw (s.bus.heap b)) :
    FindsExisting hw b s ↔
      MultiFunctionsAgree hw (s.bus.heap b) ∧ ∀ f ∈ existingFunctions hw (s.bus.heap b),
        CapabilitiesEnd hw (s.bus.heap b) f.1 f.2 := by
  constructor
  · intro h
    exact h.agrees htree hb hnone hreadable
  · rintro ⟨hagree, hends⟩
    exact findsExisting_of_agrees htree hb hnone hreadable hagree hends

end finds

/-- Device 0 of a bus, with the functions that answer and the multi-function bit; it has
no capability list. -/
def multiFunctionSpace (answers : UInt8 → Bool) : ConfigSpace := fun r =>
  (.success, match r.path with
    | .rootBridgeIo _ _ d f =>
        if d = 0 ∧ answers f then
          if r.reg = 0 then [0x12348086, 0, 0, 0x00800000] else [0]
        else [0xffffffff]
    | .pciIo _ => [0xffffffff])

/-- The search behind the bridge of `oneBridge`. -/
def oneBridgeSearch : Search := ⟨⟨oneBridge, []⟩, 3, 0, 0, 0⟩

theorem headersReadable_multiFunctionSpace (answers : UInt8 → Bool) :
    HeadersReadable (multiFunctionSpace answers) (oneBridge 2) :=
  fun _ _ _ _ _ => rfl

theorem searchDevices_findsExisting_iff_functionZero :
    FindsExisting (multiFunctionSpace fun f => f = 0) 2 oneBridgeSearch := by
  refine (searchDevices_findsExisting_iff (s := oneBridgeSearch) treeLinks_oneBridge (by simp) rfl
    (headersReadable_multiFunctionSpace _)).mpr ⟨?_, ?_⟩
  · intro d _ f _ hf hresponds
    refine absurd ?_ hresponds
    have hsilent : ¬ (d = 0 ∧ decide (f = 0) = true) := by simp [hf]
    have hread : (multiFunctionSpace fun f => f = 0).read (behind (oneBridge 2) d f) 16
        pciCommandOffset = 0xffffffff := by
      have hunits : (multiFunctionSpace fun f => f = 0)
          ⟨.rootBridgeIo ⟨7, 0⟩ 1 d f, 16, pciCommandOffset, 1⟩ = (.success, [0xffffffff]) :=
        congrArg (Prod.mk _) (if_neg hsilent)
      unfold ConfigSpace.read pciRead pciAccessRead
      simp only [behind, oneBridge, PciIoDevice.configPath]
      rw [ConfigSpace.reader, hunits]
      rfl
    rw [oneBridgeSearch, hread]
    rfl
  · intro f _ hsupport
    have hstatus : (headerOf (multiFunctionSpace fun f => f = 0) (oneBridge 2) f.1 f.2).status = 0 := by
      show (PciHeader.ofDwords (if f.1 = 0 ∧ decide (f.2 = 0) = true then
        [0x12348086, 0, 0, 0x00800000] else [0xffffffff])).status = 0
      split <;> rfl
    have hnone : (headerOf (multiFunctionSpace fun f => f = 0) (oneBridge 2) f.1 f.2).status &&& 0x10
        = 0 := by
      rw [hstatus]
      rfl
    exact absurd hnone (bne_iff_ne.mp hsupport)

/-- A bridge without the multi-function bit, and a multi-function device behind it: its
function 1 is not found. -/
theorem searchDevices_missesFunctionOne :
    FunctionExists (multiFunctionSpace fun f => f ≤ 1) (oneBridge 2) 0 1 ∧
      ¬ FindsExisting (multiFunctionSpace fun f => f ≤ 1) 2 oneBridgeSearch := by
  refine ⟨by decide, fun h => ?_⟩
  have hagree := (h.agrees treeLinks_oneBridge (by simp) rfl
    (headersReadable_multiFunctionSpace _)).1
  have hbit := (hagree 0 (by decide) 1 (by decide) (by decide) (by decide)).2
  exact absurd hbit (by decide)

end PciMisc
end EfiApps
