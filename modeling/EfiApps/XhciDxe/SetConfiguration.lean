import EfiApps.XhciDxe.SlotRuns

/-!
# Setting a configuration

On a configuration that is well formed, `XhcSetConfigCmd` sets up the endpoints of the first
setting of each interface, whatever other descriptors and settings are among them.
-/

namespace EfiApps
namespace XhciDxe

open PciMisc (EfiStatus)

/-! ## Configurations -/

/-- A configuration: the descriptor of the configuration itself, whatever comes before the first
interface, and the settings of the interfaces. -/
structure Configuration where
  header : List (BitVec 8)
  leading : List Descriptor
  settings : List Setting
  length_header : header.length = 9
  noInterface : ∀ d ∈ leading, d.isInterface = false
  numInterfaces : (header.getD 4 0).toNat = (settings.filter Setting.isDefault).length
  totalLength : (header.getD 3 0 ++ header.getD 2 0 : BitVec 16).toNat =
    header.length + ((leading ++ settings.flatMap Setting.descriptors).flatMap
      Descriptor.bytes).length

namespace Configuration

variable (c : Configuration) {k : Nat}

def descriptors : List Descriptor := c.leading ++ c.settings.flatMap Setting.descriptors

def bytes : List (BitVec 8) := c.header ++ c.descriptors.flatMap Descriptor.bytes

/-- The endpoints of the first settings. -/
def defaultEndpoints : List UsbEndpointDescriptor :=
  (c.settings.filter Setting.isDefault).flatMap Setting.endpoints

theorem descriptorsAt : DescriptorsAt c.bytes 9 c.descriptors := by
  rw [← c.length_header]
  exact recordsAt_append _ _

theorem byteAt_header (hk : k < 9) : byteAt c.bytes k = .ok (c.header.getD k 0) := by
  rw [← c.length_header] at hk
  unfold byteAt bytes
  rw [List.getElem?_append_left hk, List.getD_eq_getElem?_getD, List.getElem?_eq_getElem hk]
  rfl

end Configuration

/-- A configuration becomes the active one if the command has succeeded. -/
def activated (slotId : Nat) (value : BitVec 8) (status : EfiStatus) (x : XhcSlots) : XhcSlots :=
  if status.isError then x else x.modify slotId fun c => { c with activeConfiguration := value }

theorem sameDevices_activated (slotId : Nat) (value : BitVec 8) (status : EfiStatus)
    (x : XhcSlots) : SameDevices x (activated slotId value status x) := by
  unfold activated
  split_ifs
  · exact ⟨fun _ => rfl, rfl, rfl, rfl, rfl⟩
  · exact sameDevices_activeConfiguration x slotId value

/-- The rings are where they were. -/
theorem SameDevices.ringPtr {x x' : XhcSlots} (h : SameDevices x x') (ringPCS : Nat → Bool)
    (slotId dci : Nat) :
    XhciDxe.ringPtr ringPCS slotId dci x' = XhciDxe.ringPtr ringPCS slotId dci x := by
  have hrings := congrArg UsbDevContext.endpointTransferRing (h.core slotId)
  unfold XhciDxe.ringPtr
  rw [show (x'.usbDevContext slotId).endpointTransferRing =
    (x.usbDevContext slotId).endpointTransferRing from hrings]

theorem SameDevices.withRing {x x' : XhcSlots} (h : SameDevices x x') (ringPCS : Nat → Bool)
    (slotId : Nat) (e : UsbEndpointDescriptor) (c : EndpointContext) :
    XhciDxe.withRing ringPCS slotId e x' c = XhciDxe.withRing ringPCS slotId e x c := by
  unfold XhciDxe.withRing
  rw [h.ringPtr]

section SetConfig

variable (ringPCS : Nat → Bool) (slotId : Nat) (deviceSpeed : UsbSpeed) (controller : Controller)
  (x : XhcSlots)

/-- The end of `XhcSetConfigCmd`. -/
def Configuration.configured (c : Configuration) (slotId : Nat) (controller : Controller)
    (s : EndpointsState) : EfiStatus × InputContext × XhcSlots :=
  ((configureEndpoints slotId controller s).1, (configureEndpoints slotId controller s).2.1,
    activated slotId (c.header.getD 5 0) (configureEndpoints slotId controller s).1
      (configureEndpoints slotId controller s).2.2)

/-- The walk comes to the endpoints of the first settings. -/
theorem xhcSetConfigCmd_eq (c : Configuration) {fuel : Nat}
    (hfuel : c.descriptors.length < fuel) :
    xhcSetConfigCmd c.bytes fuel ringPCS slotId deviceSpeed controller x =
      (initializeEndpoints ringPCS slotId deviceSpeed c.defaultEndpoints
        { input := clearedInput slotId x, x := x }).map (c.configured slotId controller) := by
  have hwalk : forInterfaces c.bytes fuel ringPCS slotId deviceSpeed (c.header.getD 4 0).toNat 9
      { input := clearedInput slotId x, x := x } =
        initializeEndpoints ringPCS slotId deviceSpeed c.defaultEndpoints
          { input := clearedInput slotId x, x := x } := by
    rw [forInterfaces_eq ringPCS slotId deviceSpeed _ c.descriptorsAt hfuel, c.numInterfaces,
      Configuration.descriptors, visitInterfaces_skip _ _ _ _
        (isDefaultSetting_of_noInterface c.noInterface),
      visitInterfaces_eq ringPCS slotId deviceSpeed rfl]
    rfl
  unfold xhcSetConfigCmd
  rw [c.byteAt_header (k := 4) (by decide), c.byteAt_header (k := 5) (by decide)]
  show (forInterfaces c.bytes fuel ringPCS slotId deviceSpeed (c.header.getD 4 0).toNat 9
    { input := clearedInput slotId x, x := x } >>= _) = _
  rw [hwalk]
  cases initializeEndpoints ringPCS slotId deviceSpeed c.defaultEndpoints
      { input := clearedInput slotId x, x := x } with
  | error halt => rfl
  | ok s =>
      show (if (configureEndpoints slotId controller s).1.isError then _ else _) =
        Except.ok (c.configured slotId controller s)
      unfold Configuration.configured activated
      split_ifs
      · rfl
      · rfl

/-- The input context that the command is given. -/
structure ConfiguresEndpoints (es : List UsbEndpointDescriptor) (x x' : XhcSlots)
    (input : InputContext) : Prop where
  dword1 : input.dword1 = 0
  flags : ∀ k < 32, input.dword2.getLsbD k = (decide (k = 0) || es.any fun e => e.dci == k)
  slot : input.slot = { (x.usbDevContext slotId).outputSlot with
    contextEntries := es.foldl (fun m e => max m e.dci) 0 }
  others : ∀ k, (∀ e ∈ es, e.dci - 1 ≠ k) → input.ep k = {}
  contexts : (es.map UsbEndpointDescriptor.dci).Nodup → ∀ e ∈ es,
    ∃ c, endpointContext deviceSpeed e {} = .ok c ∧
      input.ep (e.dci - 1) = withRing ringPCS slotId e x' c

/-- The lowest flag is that of the slot context. -/
theorem getLsbD_or_one {w : BitVec 32} {k : Nat} (hk : k < 32) :
    (w ||| 1).getLsbD k = (decide (k = 0) || w.getLsbD k) := by
  have hone : (1 : BitVec 32) = 1#32 <<< 0 := by decide
  rw [hone, getLsbD_flag hk, Bool.or_comm]
  congr 1
  by_cases hzero : k = 0
  · subst hzero
    rfl
  · simp [hzero, Ne.symm hzero]

variable {ringPCS slotId deviceSpeed controller x} {left fuel : Nat}

/-- In every state that is reached, a configuration whose intervals are in their ranges is walked
over to its end.  The rings and contexts are those for the endpoints of the first setting of
each interface, and the input context tells the controller of these endpoints and of no other;
the configuration is active if the command succeeds.  If an interval is not in its range, an
assertion fails. -/
theorem setConfig_endpoints (c : Configuration) (hregular : controller.Regular)
    (hleft : 6 ≤ left) (h : SlotsReachable controller left x) (hlive : x.isLive slotId = true)
    (hfuel : c.descriptors.length < fuel) :
    ((∀ e ∈ c.defaultEndpoints, e.IntervalOk deviceSpeed) →
      ∃ status input y x',
        xhcSetConfigCmd c.bytes fuel ringPCS slotId deviceSpeed controller x =
          .ok (status, input, x') ∧
        x.setConfigRings controller slotId (ringDcis c.defaultEndpoints) = (status, y) ∧
        x' = activated slotId (c.header.getD 5 0) status y ∧
        ConfiguresEndpoints ringPCS slotId deviceSpeed c.defaultEndpoints x x' input ∧
        OwnsApart x') ∧
    ((∃ e ∈ c.defaultEndpoints, ¬ e.IntervalOk deviceSpeed) →
      xhcSetConfigCmd c.bytes fuel ringPCS slotId deviceSpeed controller x =
        .error .assertion) := by
  obtain ⟨t, hinv⟩ := h.slotsInv hregular hleft
  obtain ⟨l, hplace⟩ := (hinv.tree.live_iff slotId).mp hlive
  have hdcis : ∀ dci ∈ ringDcis c.defaultEndpoints, dci ≤ 31 := by
    intro dci hdci
    obtain ⟨e, _, rfl⟩ := List.mem_map.mp hdci
    exact Nat.le_of_lt_succ e.dci_lt
  rw [xhcSetConfigCmd_eq ringPCS slotId deviceSpeed controller x c hfuel]
  constructor
  · intro hintervals
    have hlength := Nat.le_of_eq (hinv.memory.rings slotId hlive).symm
    obtain ⟨s, hrun, hinit⟩ := initializeEndpoints_ok ringPCS
      (s := { input := clearedInput slotId x, x := x }) hlength hintervals
    rw [hrun]
    -- The command does not change what the endpoints have left.
    have hslots : x.setConfigRings controller slotId (ringDcis c.defaultEndpoints) =
        ((configureEndpoints slotId controller s).1,
          (configureEndpoints slotId controller s).2.2) := by
      unfold configureEndpoints
      rw [hinit.slots]
      rfl
    have hsame := sameDevices_activated slotId (c.header.getD 5 0)
      (configureEndpoints slotId controller s).1 (configureEndpoints slotId controller s).2.2
    refine ⟨_, _, _, _, rfl, hslots, rfl, ?_, ?_⟩
    · exact
        { dword1 := hinit.dword1
          flags := by
            intro k hk
            have hflags := hinit.flags k hk
            rw [show (EndpointsState.input { input := clearedInput slotId x, x := x }).dword2 = 0#32
              from rfl, BitVec.getLsbD_zero, Bool.false_or] at hflags
            rw [← hflags]
            exact getLsbD_or_one hk
          slot := by
            show { s.input.slot with contextEntries := s.maxDci } = _
            rw [hinit.slot, hinit.maxDci]
            rfl
          others := hinit.others
          contexts := by
            intro hdistinct e he
            obtain ⟨context, hcontext, hep⟩ := hinit.contexts hdistinct e he
            refine ⟨context, hcontext, hep.trans ?_⟩
            rw [hsame.withRing]
            rfl }
    · have hnext : SlotsInv t
          (x.setConfigRings controller slotId (ringDcis c.defaultEndpoints)).2 :=
        setConfigRings_inv hinv hplace hdcis
      rw [hslots] at hnext
      exact (hnext.same hsame).memory
  · intro hbad
    rw [initializeEndpoints_error hbad]
    rfl

end SetConfig

/-! ### A configuration of one interface -/

def endpointDescriptor (address : BitVec 8) : Descriptor where
  bytes := [7, 5, address, 2, 0x40, 0, 0]
  two_le := Nat.le_add_left 2 5
  length_eq := rfl
  interface := by
    intro h
    cases h

/-- A setting with one bulk endpoint. -/
def oneEndpoint (setting address : BitVec 8) : Setting where
  interface :=
    { bytes := [9, 4, 0, setting, 1, 8, 6, 0x50, 0]
      two_le := Nat.le_add_left 2 7
      length_eq := rfl
      interface := fun _ => rfl }
  others := [endpointDescriptor address]
  isInterface := rfl
  noInterface := by
    intro d hd
    rw [List.mem_singleton.mp hd]
    rfl
  complete := rfl

/-- Data goes to the host in one setting of the interface, and from it in the other. -/
def twoSettings : Configuration where
  header := [9, 2, 41, 0, 1, 1, 0, 0x80, 50]
  leading := []
  settings := [oneEndpoint 0 0x81, oneEndpoint 1 0x02]
  length_header := rfl
  noInterface := fun _ hd => by cases hd
  numInterfaces := rfl
  totalLength := rfl

/-- The endpoints are bulk endpoints, whose interval is not looked at. -/
theorem intervalOk_oneEndpoint (setting address : BitVec 8) (deviceSpeed : UsbSpeed) :
    ∀ e ∈ (oneEndpoint setting address).endpoints, e.IntervalOk deviceSpeed := by
  intro e he
  have hbulk : e.isBulk = true := by
    rw [List.mem_singleton.mp he]
    show ((2 : BitVec 8) &&& 3 == 2) = true
    decide
  constructor
  · intro h
    rw [hbulk] at h
    cases h
  · intro h
    rw [hbulk] at h
    cases h

theorem setConfig_endpoints_twoSettings :
    ∃ status input y x',
      xhcSetConfigCmd twoSettings.bytes 5 (fun _ => true) 2 .full (severalSlots 4) behindHub =
        .ok (status, input, x') ∧
      behindHub.setConfigRings (severalSlots 4) 2 (ringDcis twoSettings.defaultEndpoints) =
        (status, y) ∧
      x' = activated 2 (twoSettings.header.getD 5 0) status y ∧
      ConfiguresEndpoints (fun _ => true) 2 .full twoSettings.defaultEndpoints behindHub x'
        input ∧
      OwnsApart x' :=
  (setConfig_endpoints twoSettings fourSlots_regular (Nat.le_refl 6) behindHub_reachable
    (by decide +kernel) (by decide)).1 (intervalOk_oneEndpoint 0 0x81 .full)

end XhciDxe
end EfiApps
