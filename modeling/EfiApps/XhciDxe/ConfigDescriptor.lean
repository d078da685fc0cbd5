import EfiApps.Lib.Records
import EfiApps.XhciDxe.DeviceSlots

/-!
# Configuration descriptors

`XhcSetConfigCmd` and `XhcSetInterface` walk over the configuration descriptor as the device
has sent it, from one descriptor to the next by their lengths, and set up the endpoints of the
interfaces.  They look for the endpoints that an interface has according to its own descriptor.

The two loops over the endpoints of an interface differ only in what they do with one.  The
requests that lead to the walks take the descriptor from the copies in the entry of the slot.
-/

namespace EfiApps
namespace XhciDxe

open PciMisc (EfiStatus)

/-! ## Bytes -/

/-- Why a walk does not come to its end: it accesses what is not there, it goes on for too long,
an assertion fails, or what is not allocated is freed. -/
inductive WalkHalt
  | outside
  | outOfFuel
  | assertion
  | invalidFree
  deriving DecidableEq, Repr

abbrev DescriptorWalk (α : Type) := Except WalkHalt α

def byteAt (conf : List (BitVec 8)) (p : Nat) : DescriptorWalk (BitVec 8) :=
  match conf[p]? with
  | some b => .ok b
  | none => .error .outside

/-- `USB_DESC_TYPE_INTERFACE`. -/
def interfaceType : BitVec 8 := 4

/-- `USB_DESC_TYPE_ENDPOINT`. -/
def endpointType : BitVec 8 := 5

/-- `Length` more. -/
def nextDescriptor (conf : List (BitVec 8)) (p : Nat) : DescriptorWalk Nat := do
  return p + (← byteAt conf p).toNat

/-! ## Endpoints -/

/-- The fields of `USB_ENDPOINT_DESCRIPTOR` that are read. -/
structure UsbEndpointDescriptor where
  endpointAddress : BitVec 8
  attributes : BitVec 8
  maxPacketSize : BitVec 16
  interval : BitVec 8
  deriving DecidableEq, Repr

def endpointAt (conf : List (BitVec 8)) (p : Nat) : DescriptorWalk UsbEndpointDescriptor := do
  let endpointAddress ← byteAt conf (p + 2)
  let attributes ← byteAt conf (p + 3)
  let low ← byteAt conf (p + 4)
  let high ← byteAt conf (p + 5)
  let interval ← byteAt conf (p + 6)
  return { endpointAddress, attributes, maxPacketSize := high ++ low, interval }

def xhcEndpointToDci (epAddr : Nat) (direction : UsbDataDirection) : Nat :=
  if epAddr = 0 then 1
  else if direction = .dataIn then 2 * epAddr + 1 else 2 * epAddr

namespace UsbEndpointDescriptor

def epAddr (e : UsbEndpointDescriptor) : Nat := (e.endpointAddress &&& 0x0F).toNat

def direction (e : UsbEndpointDescriptor) : UsbDataDirection :=
  if e.endpointAddress &&& 0x80 ≠ 0 then .dataIn else .dataOut

def dci (e : UsbEndpointDescriptor) : Nat := xhcEndpointToDci e.epAddr e.direction

/-- `Attributes & USB_ENDPOINT_TYPE_MASK`. -/
def endpointType (e : UsbEndpointDescriptor) : BitVec 8 := e.attributes &&& 3

def isIso (e : UsbEndpointDescriptor) : Bool := e.endpointType == 1

def isBulk (e : UsbEndpointDescriptor) : Bool := e.endpointType == 2

def isInterrupt (e : UsbEndpointDescriptor) : Bool := e.endpointType == 3

/-- Whether the endpoint gets a ring. -/
def hasRing (e : UsbEndpointDescriptor) : Bool := e.isBulk || e.isInterrupt

/-- One of two types, by the direction. -/
def epType (e : UsbEndpointDescriptor) (dataIn dataOut : EpType) : EpType :=
  if e.direction = .dataIn then dataIn else dataOut

end UsbEndpointDescriptor

/-- An interval that is an exponent is asserted to be one. -/
def exponentInterval (e : UsbEndpointDescriptor) : DescriptorWalk Nat :=
  if 1 ≤ e.interval.toNat ∧ e.interval.toNat ≤ 16 then .ok e.interval.toNat
  else .error .assertion

/-- The case `USB_ENDPOINT_ISO`. -/
def isoContext (deviceSpeed : UsbSpeed) (e : UsbEndpointDescriptor) (c : EndpointContext) :
    DescriptorWalk EndpointContext :=
  let c := { c with cErr := 0, epType := e.epType .isochIn .isochOut }
  match deviceSpeed with
  | .full => do return { c with interval := (← exponentInterval e) + 2 }
  | .low => return c
  | .high | .super => do return { c with interval := (← exponentInterval e) - 1 }

/-- The case `USB_ENDPOINT_BULK`. -/
def bulkContext (e : UsbEndpointDescriptor) (c : EndpointContext) : EndpointContext :=
  { c with cErr := 3, epType := e.epType .bulkIn .bulkOut, averageTRBLength := 0x1000 }

/-- The case `USB_ENDPOINT_INTERRUPT`. -/
def interruptContext (deviceSpeed : UsbSpeed) (e : UsbEndpointDescriptor) (c : EndpointContext) :
    DescriptorWalk EndpointContext :=
  let c := { c with
    cErr := 3
    epType := e.epType .interruptIn .interruptOut
    averageTRBLength := 0x1000
    maxESITPayload := e.maxPacketSize.toNat }
  match deviceSpeed with
  | .full | .low =>
      -- The interval is in frames, and the field counts powers of two of microframes.
      if e.interval ≠ 0 then .ok { c with interval := Nat.log2 e.interval.toNat + 3 }
      else .error .assertion
  | .high | .super => do
      let interval ← exponentInterval e
      return { c with
        interval := interval - 1
        averageTRBLength := 0x1000
        maxESITPayload := 2
        maxBurstSize := 0
        cErr := 3 }

/-- The context of an endpoint, without the address of its ring. -/
def endpointContext (deviceSpeed : UsbSpeed) (e : UsbEndpointDescriptor) (c : EndpointContext) :
    DescriptorWalk EndpointContext :=
  let c := { c with maxPacketSize := e.maxPacketSize.toNat, maxBurstSize := 0 }
  if e.isBulk then .ok (bulkContext e c)
  else if e.isIso then isoContext deviceSpeed e c
  else if e.isInterrupt then interruptContext deviceSpeed e c
  else .ok c

/-- `MaxDci`, the input context and the slots. -/
structure EndpointsState where
  maxDci : Nat := 0
  input : InputContext
  x : XhcSlots

/-- The address of the ring of an endpoint, with its `RingPCS`. -/
def ringPtr (ringPCS : Nat → Bool) (slotId dci : Nat) (x : XhcSlots) : Option (Nat × Bool) :=
  ((x.usbDevContext slotId).endpointTransferRing.getD (dci - 1) none).map fun r =>
    (r.ringSeg0, ringPCS r.ring)

/-- What the loop of `XhcInitializeEndpointContext` does with an endpoint.  `ringPCS` is the
`RingPCS` of a ring. -/
def initializeEndpoint (ringPCS : Nat → Bool) (slotId : Nat) (deviceSpeed : UsbSpeed)
    (e : UsbEndpointDescriptor) (s : EndpointsState) : DescriptorWalk EndpointsState := do
  if ¬ e.dci < 32 then throw .assertion
  let c ← endpointContext deviceSpeed e (s.input.ep (e.dci - 1))
  let x := if e.hasRing then s.x.createEndpointRing slotId e.dci else s.x
  let c := if e.hasRing then { c with ptr := ringPtr ringPCS slotId e.dci x } else c
  return {
    maxDci := max s.maxDci e.dci
    input := { s.input with
      dword2 := s.input.dword2 ||| 1#32 <<< e.dci
      ep := Function.update s.input.ep (e.dci - 1) c }
    x := x }

/-! ## The walks -/

section Walks

variable (conf : List (BitVec 8)) (fuel : Nat)

/-- The loops over the next `NumEp` endpoints; `false` ends them. -/
def forEndpoints {σ : Type} (body : UsbEndpointDescriptor → σ → DescriptorWalk (Bool × σ)) :
    Nat → Nat → σ → DescriptorWalk σ
  | 0, _, s => .ok s
  | numEp + 1, p, s => do
      let p ← skipUntil (fun p => return (← byteAt conf (p + 1)) == endpointType)
        (nextDescriptor conf) .outOfFuel fuel p
      let length ← byteAt conf p
      if length.toNat < 7 then forEndpoints body numEp (p + length.toNat) s
      else
        let (goOn, s) ← body (← endpointAt conf p) s
        if goOn then forEndpoints body numEp (p + length.toNat) s else return s

variable (ringPCS : Nat → Bool) (slotId : Nat) (deviceSpeed : UsbSpeed)

/-- `XhcInitializeEndpointContext`, for the interface descriptor at `ifDesc`. -/
def xhcInitializeEndpointContext (ifDesc : Nat) (input : InputContext) (x : XhcSlots) :
    DescriptorWalk EndpointsState := do
  let numEndpoints ← byteAt conf (ifDesc + 4)
  forEndpoints conf fuel
    (fun e s => return (true, ← initializeEndpoint ringPCS slotId deviceSpeed e s))
    numEndpoints.toNat (ifDesc + 9) { input := input, x := x }

/-- The first setting of an interface. -/
def isDefaultSettingAt (p : Nat) : DescriptorWalk Bool := do
  if (← byteAt conf (p + 1)) ≠ interfaceType then return false
  return (← byteAt conf (p + 3)) == 0

/-- The loop of `XhcSetConfigCmd` over the next interfaces. -/
def forInterfaces : Nat → Nat → EndpointsState → DescriptorWalk EndpointsState
  | 0, _, s => .ok s
  | numInterfaces + 1, p, s => do
      let p ← skipUntil (isDefaultSettingAt conf) (nextDescriptor conf) .outOfFuel fuel p
      let length ← byteAt conf p
      if length.toNat < 9 then forInterfaces numInterfaces (p + length.toNat) s
      else
        let t ← xhcInitializeEndpointContext conf fuel ringPCS slotId deviceSpeed p s.input s.x
        forInterfaces numInterfaces (p + length.toNat) { t with maxDci := max s.maxDci t.maxDci }

/-- The end of both functions: the command for the input context. -/
def configureEndpoints (controller : Controller) (s : EndpointsState) :
    EfiStatus × InputContext × XhcSlots :=
  let input := { s.input with
    dword2 := s.input.dword2 ||| 1
    slot := { s.input.slot with contextEntries := s.maxDci } }
  let (result, x) := s.x.cmdTransfer controller (.configureEndpoint slotId)
  (result.status, input, x)

/-- The input context at the start of both functions. -/
def clearedInput (x : XhcSlots) : InputContext := { slot := (x.usbDevContext slotId).outputSlot }

/-- The status of the command, and the input context that the controller is given. -/
def xhcSetConfigCmd (controller : Controller) (x : XhcSlots) :
    DescriptorWalk (EfiStatus × InputContext × XhcSlots) := do
  let numInterfaces ← byteAt conf 4
  let s ← forInterfaces conf fuel ringPCS slotId deviceSpeed numInterfaces.toNat 9
    { input := clearedInput slotId x, x := x }
  let (status, input, x) := configureEndpoints slotId controller s
  if status.isError then return (status, input, x)
  let configurationValue ← byteAt conf 5
  return (status, input, x.modify slotId fun c =>
    { c with activeConfiguration := configurationValue })

/-! ### Another setting -/

/-- `ActiveAlternateSetting` of an interface.  The array is `NULL` before a configuration has been
read, and has an entry for each interface of the one that was read last. -/
def activeSettingAt (x : XhcSlots) (interfaceNumber : BitVec 8) : DescriptorWalk (BitVec 8) :=
  match (x.usbDevContext slotId).activeAlternateSetting with
  | none => .error .outside
  | some a => byteAt (x.contents a) interfaceNumber.toNat

def setActiveSetting (interfaceNumber value : BitVec 8) (x : XhcSlots) : DescriptorWalk XhcSlots :=
  match (x.usbDevContext slotId).activeAlternateSetting with
  | none => .error .outside
  | some a =>
      if interfaceNumber.toNat < (x.contents a).length then
        .ok { x with
          contents := Function.update x.contents a
            ((x.contents a).set interfaceNumber.toNat value) }
      else .error .outside

/-- The settings that `XhcSetInterface` has found. -/
structure FoundSettings where
  active : Option Nat := none
  set : Option Nat := none
  deriving DecidableEq, Repr

variable (index value : BitVec 8)

/-- Whether a descriptor is one of the two that are looked for. -/
def checkSetting (x : XhcSlots) (p : Nat) (found : FoundSettings) :
    DescriptorWalk FoundSettings := do
  if (← byteAt conf (p + 1)) ≠ interfaceType then return found
  if (← byteAt conf p).toNat < 9 then return found
  let interfaceNumber ← byteAt conf (p + 2)
  if interfaceNumber ≠ index then return found
  let setting ← byteAt conf (p + 3)
  if setting = (← activeSettingAt slotId x interfaceNumber) then
    return { found with active := some p }
  if setting = value then return { found with set := some p }
  return found

/-- The loop over the descriptors before `TotalLength`. -/
def findSettings (x : XhcSlots) (totalLength : Nat) :
    Nat → Nat → FoundSettings → DescriptorWalk FoundSettings
  | 0, _, _ => .error .outOfFuel
  | fuel + 1, p, found => do
      if p < totalLength then
        let found ← checkSetting conf slotId index value x p found
        findSettings x totalLength fuel (← nextDescriptor conf p) found
      else return found

/-- What the loop over the endpoints of the active setting does with one. -/
def dropEndpoint (controller : Controller) (e : UsbEndpointDescriptor)
    (s : EfiStatus × EndpointsState) : DescriptorWalk (Bool × EfiStatus × EndpointsState) := do
  let (_, s) := s
  if ¬ e.dci < 32 then throw .assertion
  let maxDci := max s.maxDci e.dci
  let (result, x) := s.x.cmdTransfer controller (.stopEndpoint slotId e.dci)
  -- The function returns; the rings of the endpoints before this one have been freed.
  if result.status.isError then return (false, result.status, { s with maxDci := maxDci, x := x })
  match x.freeEndpointRing slotId e.dci with
  | none => throw .invalidFree
  | some x =>
      return (true, result.status,
        { maxDci := maxDci
          input := { s.input with dword1 := s.input.dword1 ||| 1#32 <<< e.dci }
          x := x })

/-- The endpoints of the setting at `active` are dropped, and those of the one at `set` are
added. -/
def replaceSetting (controller : Controller) (active set : Nat) (input : InputContext)
    (x : XhcSlots) : DescriptorWalk (EfiStatus × InputContext × XhcSlots) := do
  let numEndpoints ← byteAt conf (active + 4)
  let (status, s) ← forEndpoints conf fuel (dropEndpoint slotId controller)
    numEndpoints.toNat (active + 9) (.success, { input := input, x := x })
  if status.isError then return (status, s.input, s.x)
  let t ← xhcInitializeEndpointContext conf fuel ringPCS slotId deviceSpeed set s.input s.x
  let (status, input, x) := configureEndpoints slotId controller
    { t with maxDci := max s.maxDci t.maxDci }
  if status.isError then return (status, input, x)
  return (status, input, ← setActiveSetting slotId index value x)

/-- `XhcSetInterface`, for `Request->Index` and `Request->Value`. -/
def xhcSetInterface (controller : Controller) (x : XhcSlots) :
    DescriptorWalk (EfiStatus × InputContext × XhcSlots) := do
  let low ← byteAt conf 2
  let high ← byteAt conf 3
  let found ← findSettings conf slotId index value x (high ++ low).toNat fuel 9 {}
  match found with
  | { active := some active, set := some set } =>
      replaceSetting conf fuel ringPCS slotId deviceSpeed index value controller active set
        (clearedInput slotId x) x
  | _ => return (.success, clearedInput slotId x, x)

end Walks

/-! ## The requests for a configuration -/

/-- The answer to a `Get_Descriptor` request for a configuration, if it is a whole one. -/
def getConfigDescriptor (slotId index : Nat) (data : List (BitVec 8)) (x : XhcSlots) :
    DescriptorWalk XhcSlots := do
  let low ← byteAt data 2
  let high ← byteAt data 3
  if data.length ≠ (high ++ low).toNat then return x
  if ¬ index < (x.usbDevContext slotId).confDesc.length then throw .assertion
  return x.storeConfig slotId index data (← byteAt data 4)

/-- The first of these configurations with the value. -/
def findConfig (contents : Nat → List (BitVec 8)) (value : BitVec 8) :
    List (Option Nat) → DescriptorWalk (Option (List (BitVec 8)))
  | [] => .ok none
  | none :: _ => .error .outside
  | some a :: rest => do
      if (← byteAt (contents a) 5) = value then return some (contents a)
      findConfig contents value rest

/-- A walk takes no more steps than there are bytes, unless it does not end. -/
def walkFuel (conf : List (BitVec 8)) : Nat := conf.length + 1

/-- The `Set_Configuration` request in `XhcControlTransfer`. -/
def setConfiguration (ringPCS : Nat → Bool) (slotId : Nat) (deviceSpeed : UsbSpeed)
    (controller : Controller) (value : BitVec 8) (x : XhcSlots) : DescriptorWalk XhcSlots := do
  match ← findConfig x.contents value (x.usbDevContext slotId).confDesc with
  | none => return x
  | some conf =>
      let (_, _, x) ← xhcSetConfigCmd conf (walkFuel conf) ringPCS slotId deviceSpeed controller x
      return x

/-- `ConfDesc[ActiveConfiguration - 1]`, which is asserted not to be `NULL`. -/
def activeConfig (slotId : Nat) (x : XhcSlots) : DescriptorWalk (List (BitVec 8)) :=
  let n := (x.usbDevContext slotId).activeConfiguration.toNat
  if n = 0 then .error .outside
  else
    match (x.usbDevContext slotId).confDesc[n - 1]? with
    | none => .error .outside
    | some none => .error .assertion
    | some (some a) => .ok (x.contents a)

/-- The `Set_Interface` request in `XhcControlTransfer`. -/
def setInterface (ringPCS : Nat → Bool) (slotId : Nat) (deviceSpeed : UsbSpeed)
    (controller : Controller) (index value : BitVec 8) (x : XhcSlots) :
    DescriptorWalk XhcSlots := do
  if (← activeSettingAt slotId x index) = value then return x
  let conf ← activeConfig slotId x
  let (_, _, x) ← xhcSetInterface conf (walkFuel conf) ringPCS slotId deviceSpeed index value
    controller x
  return x

end XhciDxe
end EfiApps
