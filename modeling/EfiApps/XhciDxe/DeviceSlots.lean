import EfiApps.PciMisc.Device
import EfiApps.XhciDxe.DeviceRoutes
import EfiApps.XhciDxe.TransferTrb

/-!
# Device slots

The controller has a slot for each device.  The driver enables one when a port reports a
device, and disables it, after those of the devices behind it, when the port changes again.
`UsbDevContext` has an entry for each slot.

Commands may fail, allocations do not.  A function returns `none` where one of its assertions
fails, where it frees what is not allocated, or where it calls itself more often than its first
argument allows.  Addresses of what has been allocated are numbers that are not used again.
-/

namespace EfiApps
namespace XhciDxe

open PciMisc (EfiStatus)

/-! ## The state -/

/-- `EFI_USB_SPEED_FULL` to `EFI_USB_SPEED_SUPER`. -/
inductive UsbSpeed
  | full
  | low
  | high
  | super
  deriving DecidableEq, Repr

def UsbSpeed.toNat : UsbSpeed → Nat
  | .full => 0
  | .low => 1
  | .high => 2
  | .super => 3

/-- The fields of `SLOT_CONTEXT` that are set here. -/
structure SlotContext where
  routeString : BitVec 20 := 0
  speed : Nat := 0
  contextEntries : Nat := 0
  rootHubPortNum : BitVec 8 := 0
  ttPortNum : BitVec 8 := 0
  ttHubSlotId : Nat := 0
  deviceAddress : BitVec 8 := 0
  deriving DecidableEq, Repr

/-- The fields of `ENDPOINT_CONTEXT` that are set.  `ptr` is the ring segment, with `DCS` as its
lowest bit. -/
structure EndpointContext where
  epType : EpType := .notValid
  maxPacketSize : Nat := 0
  averageTRBLength : Nat := 0
  maxBurstSize : Nat := 0
  interval : Nat := 0
  maxPStreams : Nat := 0
  mult : Nat := 0
  maxESITPayload : Nat := 0
  cErr : Nat := 0
  ptr : Option (Nat × Bool) := none
  deriving DecidableEq, Repr

/-- `INPUT_CONTEXT`. -/
structure InputContext where
  dword1 : BitVec 32 := 0
  dword2 : BitVec 32 := 0
  slot : SlotContext := {}
  ep : Nat → EndpointContext := fun _ => {}

/-- A `TRANSFER_RING`, and its segment. -/
structure RingPtr where
  ring : Nat
  ringSeg0 : Nat
  deriving DecidableEq, Repr

/-- `USB_DEV_CONTEXT`.  `confDesc` has as many entries as `DevDesc.NumConfigurations` says;
`outputSlot` is the slot context that the controller has put into the output context when the
device was addressed. -/
structure UsbDevContext where
  enabled : Bool := false
  slotId : Nat := 0
  routeString : UsbDevRoute := {}
  parentRouteString : UsbDevRoute := {}
  xhciDevAddr : BitVec 8 := 0
  busDevAddr : BitVec 8 := 0
  inputContext : Option Nat := none
  outputContext : Option Nat := none
  outputSlot : SlotContext := {}
  endpointTransferRing : List (Option RingPtr) := List.replicate 31 none
  confDesc : List (Option Nat) := []
  activeConfiguration : BitVec 8 := 0
  activeAlternateSetting : Option Nat := none

/-- The commands that concern slots. -/
inductive SlotCommand
  | enableSlot
  | addressDevice (slotId : Nat)
  | disableSlot (slotId : Nat)
  | stopEndpoint (slotId dci : Nat)
  | configureEndpoint (slotId : Nat)
  deriving DecidableEq, Repr

/-- What `XhcCmdTransfer` returns, with the slot of the completion event and the device address
that the controller has put into the output context. -/
structure CmdResult where
  status : EfiStatus
  slotId : Nat := 0
  deviceAddress : BitVec 8 := 0
  deriving DecidableEq, Repr

/-- The number of slots that have been enabled at the controller, and what it answers to a
command after the commands before it. -/
structure Controller where
  maxSlotsEn : Nat
  answer : List (SlotCommand × CmdResult) → SlotCommand → CmdResult

/-- The fields of `USB_XHCI_INSTANCE` that are changed here, what is allocated, the bytes of the
copies of configurations and of the arrays of alternate settings, and the commands so far. -/
structure XhcSlots where
  usbDevContext : Nat → UsbDevContext := fun _ => {}
  dcbaa : Nat → Option Nat := fun _ => none
  allocated : List Nat := []
  contents : Nat → List (BitVec 8) := fun _ => []
  nextAddress : Nat := 0
  commands : List (SlotCommand × CmdResult) := []

/-- `EFI_DEVICE_ERROR`. -/
def deviceError : EfiStatus := .error 7

namespace XhcSlots

def modify (slotId : Nat) (f : UsbDevContext → UsbDevContext) (x : XhcSlots) : XhcSlots :=
  { x with usbDevContext := Function.update x.usbDevContext slotId (f (x.usbDevContext slotId)) }

/-- An entry that is `Enabled` and has a `SlotId`. -/
def isLive (x : XhcSlots) (i : Nat) : Bool :=
  (x.usbDevContext i).enabled && decide ((x.usbDevContext i).slotId ≠ 0)

/-- An allocation. -/
def allocate (x : XhcSlots) : Nat × XhcSlots :=
  (x.nextAddress,
    { x with allocated := x.nextAddress :: x.allocated, nextAddress := x.nextAddress + 1 })

/-- `XhcCmdTransfer`. -/
def cmdTransfer (controller : Controller) (command : SlotCommand) (x : XhcSlots) :
    CmdResult × XhcSlots :=
  let result := controller.answer x.commands command
  (result, { x with commands := x.commands ++ [(command, result)] })

end XhcSlots

/-- Frees one after the other. -/
def freeAll : List Nat → List Nat → Option (List Nat)
  | [], allocated => some allocated
  | address :: addresses, allocated =>
      if address ∈ allocated then freeAll addresses (allocated.erase address) else none

def RingPtr.owned (r : RingPtr) : List Nat := [r.ringSeg0, r.ring]

/-- What is freed with an entry, in this order. -/
def UsbDevContext.owned (c : UsbDevContext) : List Nat :=
  c.endpointTransferRing.flatMap (fun r => r.toList.flatMap RingPtr.owned) ++
    c.confDesc.flatMap Option.toList ++ c.activeAlternateSetting.toList ++
      c.inputContext.toList ++ c.outputContext.toList

/-! ## Finding a slot -/

/-- `Index + 1`, in the loops over the entries. -/
def slotIndices : List Nat := (List.range 255).map (· + 1)

namespace XhcSlots

/-- The slot of the first entry that is used and that the test holds of. -/
def findSlotId (x : XhcSlots) (p : UsbDevContext → Bool) : Nat :=
  match slotIndices.find? fun i => x.isLive i && p (x.usbDevContext i) with
  | some i => (x.usbDevContext i).slotId
  | none => 0

def xhcRouteStringToSlotId (x : XhcSlots) (routeString : UsbDevRoute) : Nat :=
  x.findSlotId fun c => c.routeString = routeString

def xhcBusDevAddrToSlotId (x : XhcSlots) (busDevAddr : BitVec 8) : Nat :=
  x.findSlotId fun c => c.busDevAddr = busDevAddr

/-! ## Disabling a slot -/

/-- The loop of `XhcDisableSlotCmd` over these entries. -/
def disableChildren (disable : Nat → XhcSlots → Option (EfiStatus × XhcSlots)) (slotId : Nat) :
    List Nat → XhcSlots → Option XhcSlots
  | [], x => some x
  | i :: rest, x =>
      if x.isLive i ∧
          (x.usbDevContext i).parentRouteString = (x.usbDevContext slotId).routeString then
        match disable (x.usbDevContext i).slotId x with
        | none => none
        | some (status, x) =>
            disableChildren disable slotId rest
              (if status.isError then x.modify i fun c => { c with slotId := 0 } else x)
      else disableChildren disable slotId rest x

/-- Frees what belongs to the slot, and clears its entries. -/
def release (slotId : Nat) (x : XhcSlots) : Option XhcSlots :=
  match freeAll (x.usbDevContext slotId).owned x.allocated with
  | none => none
  | some allocated =>
      some { x.modify slotId fun c =>
          { c with
            endpointTransferRing := c.endpointTransferRing.map fun _ => none
            enabled := false
            slotId := 0 } with
        dcbaa := Function.update x.dcbaa slotId none
        allocated := allocated }

def xhcDisableSlotCmd (controller : Controller) :
    Nat → Nat → XhcSlots → Option (EfiStatus × XhcSlots)
  | 0, _, _ => none
  | left + 1, slotId, x =>
      match disableChildren (xhcDisableSlotCmd controller left) slotId slotIndices x with
      | none => none
      | some x =>
          let (result, x) := x.cmdTransfer controller (.disableSlot slotId)
          if result.status.isError then some (result.status, x)
          else (x.release slotId).map fun x => (result.status, x)

/-! ## Initializing a slot -/

/-- The `TT` fields and the speed of a device behind the hub in slot `parentSlotId`. -/
def ttFields (parent : SlotContext) (parentSlotId parentPort : Nat) (deviceSpeed : UsbSpeed)
    (slot : SlotContext) : SlotContext :=
  if parent.ttPortNum = 0 ∧ parent.ttHubSlotId = 0 then
    if parent.speed = UsbSpeed.high.toNat + 1 ∧ deviceSpeed.toNat < UsbSpeed.high.toNat then
      { slot with ttPortNum := BitVec.ofNat 8 parentPort, ttHubSlotId := parentSlotId }
    else slot
  else
    { slot with
      ttPortNum := parent.ttPortNum
      ttHubSlotId := parent.ttHubSlotId
      speed := if deviceSpeed = .high then parent.speed else slot.speed }

/-- The input slot context; `none` if the hub of the device has no slot. -/
def inputSlot (x : XhcSlots) (parentRouteChart : UsbDevRoute) (parentPort : Nat)
    (routeChart : UsbDevRoute) (deviceSpeed : UsbSpeed) : Option SlotContext :=
  let slot : SlotContext :=
    { routeString := routeChart.routeString
      speed := deviceSpeed.toNat + 1
      contextEntries := 1
      rootHubPortNum := routeChart.rootPortNum }
  if routeChart.routeString ≠ 0 then
    let parentSlotId := x.xhcRouteStringToSlotId parentRouteChart
    -- `ASSERT (ParentSlotId != 0)`.
    if parentSlotId = 0 then none
    else some (ttFields (x.usbDevContext parentSlotId).outputSlot parentSlotId parentPort
      deviceSpeed slot)
  else some slot

/-- The context of the default control endpoint. -/
def inputEp0 (deviceSpeed : UsbSpeed) (ringSeg0 : Nat) : EndpointContext where
  epType := .controlBidir
  maxPacketSize :=
    if deviceSpeed = .super then 512 else if deviceSpeed = .high then 64 else 8
  averageTRBLength := 8
  maxBurstSize := 0
  interval := 0
  maxPStreams := 0
  mult := 0
  cErr := 3
  ptr := some (ringSeg0, true)

/-- The contexts and the ring of a new device in a slot that has been enabled, and what the
input context holds. -/
def prepareSlot (slotId : Nat) (parentRouteChart : UsbDevRoute) (parentPort : Nat)
    (routeChart : UsbDevRoute) (deviceSpeed : UsbSpeed) (x : XhcSlots) :
    Option (InputContext × XhcSlots) :=
  let x := x.modify slotId fun _ =>
    { enabled := true
      slotId := slotId
      routeString := routeChart
      parentRouteString := parentRouteChart }
  let (inputContext, x) := x.allocate
  match x.inputSlot parentRouteChart parentPort routeChart deviceSpeed with
  | none => none
  | some slot =>
      let (ring, x) := x.allocate
      let (ringSeg0, x) := x.allocate
      let (outputContext, x) := x.allocate
      some ({ dword2 := 3, slot := slot,
              ep := Function.update (fun _ => {}) 0 (inputEp0 deviceSpeed ringSeg0) },
        { x.modify slotId fun c =>
            { c with
              inputContext := some inputContext
              endpointTransferRing := c.endpointTransferRing.set 0 (some ⟨ring, ringSeg0⟩)
              outputContext := some outputContext } with
          dcbaa := Function.update x.dcbaa slotId (some outputContext) })

/-- `Address Device`; the controller copies the slot context and adds the address. -/
def addressSlot (controller : Controller) (slotId : Nat) (input : InputContext) (x : XhcSlots) :
    EfiStatus × XhcSlots :=
  let (result, x) := x.cmdTransfer controller (.addressDevice slotId)
  if result.status.isError then (result.status, x)
  else
    (result.status, x.modify slotId fun c =>
      { c with
        outputSlot := { input.slot with deviceAddress := result.deviceAddress }
        xhciDevAddr := result.deviceAddress })

def xhcInitializeDeviceSlot (controller : Controller) (parentRouteChart : UsbDevRoute)
    (parentPort : Nat) (routeChart : UsbDevRoute) (deviceSpeed : UsbSpeed) (x : XhcSlots) :
    Option (EfiStatus × XhcSlots) :=
  let (result, x) := x.cmdTransfer controller .enableSlot
  if result.status.isError then some (result.status, x)
  else if ¬ result.slotId ≤ controller.maxSlotsEn ∨ result.slotId = 0 then none
  else
    (x.prepareSlot result.slotId parentRouteChart parentPort routeChart deviceSpeed).map
      fun (input, x) => addressSlot controller result.slotId input x

/-! ## A port changes -/

end XhcSlots

/-- The bits of `EFI_USB_PORT_STATUS` that are looked at. -/
structure PortState where
  connection : Bool := false
  enable : Bool := false
  lowSpeed : Bool := false
  highSpeed : Bool := false
  superSpeed : Bool := false
  connectionChange : Bool := false
  enableChange : Bool := false
  overcurrentChange : Bool := false
  resetChange : Bool := false
  deriving DecidableEq, Repr

/-- Whether there is a change to handle. -/
def PortState.changed (p : PortState) : Bool :=
  p.connectionChange || p.enableChange || p.overcurrentChange || p.resetChange

/-- `Speed`. -/
def PortState.speed (p : PortState) : UsbSpeed :=
  if p.lowSpeed then .low
  else if p.highSpeed then .high
  else if p.superSpeed then .super
  else .full

namespace XhcSlots

/-- The slot with a route is disabled, if there is one. -/
def disableRoute (controller : Controller) (left : Nat) (routeChart : UsbDevRoute)
    (x : XhcSlots) : Option (EfiStatus × XhcSlots) :=
  let slotId := x.xhcRouteStringToSlotId routeChart
  if slotId ≠ 0 then xhcDisableSlotCmd controller left slotId x else some (.success, x)

/-- A slot for the device that the port reports, unless there still is one. -/
def attach (controller : Controller) (parentRouteChart : UsbDevRoute) (port : Nat)
    (routeChart : UsbDevRoute) (portState : PortState) (status : EfiStatus) (x : XhcSlots) :
    Option (EfiStatus × XhcSlots) :=
  if portState.enable && portState.connection then
    if x.xhcRouteStringToSlotId routeChart = 0 ∧ portState.resetChange then
      x.xhcInitializeDeviceSlot controller parentRouteChart port routeChart portState.speed
    else some (status, x)
  else some (status, x)

def xhcPollPortStatusChange (controller : Controller) (left : Nat)
    (parentRouteChart : UsbDevRoute) (port : Nat) (portState : PortState) (x : XhcSlots) :
    Option (EfiStatus × XhcSlots) :=
  if ¬ portState.changed then some (.success, x)
  else
    match x.disableRoute controller left (routeChart parentRouteChart port) with
    | none => none
    | some (status, x) =>
        x.attach controller parentRouteChart port (routeChart parentRouteChart port) portState
          status

/-! ## Requests to a device -/

/-- The `Set_Address` request in `XhcControlTransfer`. -/
def setAddress (slotId : Nat) (value : BitVec 8) (x : XhcSlots) : EfiStatus × XhcSlots :=
  let x := slotIndices.foldl (fun x i =>
    if ¬ (x.usbDevContext i).enabled ∧ (x.usbDevContext i).slotId = 0 ∧
        (x.usbDevContext i).busDevAddr = value then
      x.modify i fun c => { c with busDevAddr := 0 }
    else x) x
  if (x.usbDevContext slotId).xhciDevAddr = 0 then (deviceError, x)
  else (.success, x.modify slotId fun c => { c with busDevAddr := value })

/-- The answer to a `Get_Descriptor` request for the device descriptor; a short one does not
say how many configurations there are.  The array itself is never freed. -/
def deviceDescriptor (slotId : Nat) (numConfigurations : Option Nat) (x : XhcSlots) : XhcSlots :=
  let (_, x) := x.allocate
  x.modify slotId fun c =>
    { c with confDesc := List.replicate (numConfigurations.getD c.confDesc.length) none }

/-- A configuration is copied, and has the first setting of each of its interfaces. -/
def storeConfig (slotId index : Nat) (data : List (BitVec 8)) (numInterfaces : BitVec 8)
    (x : XhcSlots) : XhcSlots :=
  let (confDesc, x) := x.allocate
  let (activeAlternateSetting, x) := x.allocate
  { x.modify slotId fun c =>
      { c with
        confDesc := c.confDesc.set index (some confDesc)
        activeAlternateSetting := some activeAlternateSetting } with
    contents := Function.update (Function.update x.contents confDesc data)
      activeAlternateSetting (List.replicate numInterfaces.toNat 0) }

/-- The ring that `XhcInitializeEndpointContext` makes for a bulk or interrupt endpoint. -/
def createEndpointRing (slotId dci : Nat) (x : XhcSlots) : XhcSlots :=
  match (x.usbDevContext slotId).endpointTransferRing.getD (dci - 1) none with
  | some _ => x
  | none =>
      let (ring, x) := x.allocate
      let (ringSeg0, x) := x.allocate
      x.modify slotId fun c =>
        { c with
          endpointTransferRing := c.endpointTransferRing.set (dci - 1) (some ⟨ring, ringSeg0⟩) }

/-- What `XhcSetConfigCmd` does to the slot, if it makes rings for these endpoints. -/
def setConfigRings (controller : Controller) (slotId : Nat) (dcis : List Nat) (x : XhcSlots) :
    EfiStatus × XhcSlots :=
  let x := dcis.foldl (fun x dci => x.createEndpointRing slotId dci) x
  let (result, x) := x.cmdTransfer controller (.configureEndpoint slotId)
  (result.status, x)

/-- The ring of an endpoint is freed. -/
def freeEndpointRing (slotId dci : Nat) (x : XhcSlots) : Option XhcSlots :=
  match (x.usbDevContext slotId).endpointTransferRing.getD (dci - 1) none with
  | none => some x
  | some r =>
      match freeAll r.owned x.allocated with
      | none => none
      | some allocated =>
          some { x.modify slotId fun c =>
              { c with endpointTransferRing := c.endpointTransferRing.set (dci - 1) none } with
            allocated := allocated }

/-- What `XhcSetInterface` does to the endpoints of the active setting, until one cannot be
stopped. -/
def stopEndpoints (controller : Controller) (slotId : Nat) :
    List Nat → XhcSlots → Option (EfiStatus × XhcSlots)
  | [], x => some (.success, x)
  | dci :: rest, x =>
      let (result, x) := x.cmdTransfer controller (.stopEndpoint slotId dci)
      if result.status.isError then some (result.status, x)
      else
        match x.freeEndpointRing slotId dci with
        | none => none
        | some x => stopEndpoints controller slotId rest x

/-- What `XhcSetInterface` does to the slot, if these are the endpoints of the active setting and
the new ones that get rings. -/
def setInterfaceRings (controller : Controller) (slotId : Nat) (active dcis : List Nat)
    (x : XhcSlots) : Option (EfiStatus × XhcSlots) :=
  match stopEndpoints controller slotId active x with
  | none => none
  | some (status, x) =>
      if status.isError then some (status, x)
      else some (x.setConfigRings controller slotId dcis)

/-! ## Stopping the driver -/

/-- The loop of `XhcDriverBindingStop` over these entries. -/
def stopSlots (controller : Controller) (left : Nat) : List Nat → XhcSlots → Option XhcSlots
  | [], x => some x
  | i :: rest, x =>
      if x.isLive i then
        match xhcDisableSlotCmd controller left (x.usbDevContext i).slotId x with
        | none => none
        | some (_, x) => stopSlots controller left rest x
      else stopSlots controller left rest x

end XhcSlots

end XhciDxe
end EfiApps
