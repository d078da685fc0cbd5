import EfiApps.XhciDxe.EventRing
import EfiApps.XhciDxe.UrbTrbs

/-!
# The results of the URBs

`XhcCheckUrbResult` handles the events that a poll of the event ring finds.  Each event names a
TRB.  The URB that has it among its TRBs takes the result: the pending URB first, then the URB
that is checked, then the asynchronous interrupt transfers.  After an error the function
returns at once, and leaves the other events to the next poll.

The address in an event is converted to a host address with the size of a TRB rounded up to a
whole unit of the memory pool.  So the poll fails an assertion at an event for one of the last
TRBs of a ring that ends with its block.
-/

namespace EfiApps
namespace XhciDxe

/-! ## Codes -/

def efiUsbErrStall : BitVec 32 := 0x02
def efiUsbErrBuffer : BitVec 32 := 0x04
def efiUsbErrBabble : BitVec 32 := 0x08
def efiUsbErrTimeout : BitVec 32 := 0x40
/-- The completion codes that `XhcCheckUrbResult` names. -/
inductive Completion
  | success
  | shortPacket
  | stallError
  | babbleError
  | dataBufferError
  | usbTransactionError
  | stopped
  | stoppedLengthInvalid
  /-- The `default` case. -/
  | other
  deriving DecidableEq, Repr

/-- The case that a `Completecode` belongs to. -/
def completionOf (completecode : BitVec 8) : Completion :=
  if completecode = 1 then .success
  else if completecode = 2 then .dataBufferError
  else if completecode = 3 then .babbleError
  else if completecode = 4 then .usbTransactionError
  else if completecode = 6 then .stallError
  else if completecode = 13 then .shortPacket
  else if completecode = 26 then .stopped
  else if completecode = 27 then .stoppedLengthInvalid
  else .other

def trbTypeTransEvent : BitVec 6 := 32
def trbTypeCommandCompltEvent : BitVec 6 := 33

/-! ## The state -/

/-- The address of its TRB that an event gives. -/
def EvtTrb.pointer (e : EvtTrb) : BitVec 64 :=
  e.trbPtrLo.setWidth 64 ||| (e.trbPtrHi.setWidth 64 <<< 32)

/-- An event with its `TRBPtr`, the host address of the TRB. -/
structure Event where
  evtTrb : EvtTrb
  trbPtr : Nat
  deriving DecidableEq, Repr

/-- The memory pool and the rings in it: their segments, and where these are. -/
structure Rings where
  pool : UsbhcMemPool
  seg : Nat → Nat → TrbTemplate
  ringSeg0 : Nat → Nat
  phyAddr : Nat → BitVec 64

namespace Rings

variable (rings : Rings) (ring : Nat)

/-- The host address of a TRB. -/
def trbAddr (trb : Nat) : Nat := rings.ringSeg0 ring + trbSize * trb

/-- The address of a TRB for the controller. -/
def pciAddr (trb : Nat) : BitVec 64 := rings.phyAddr ring + BitVec.ofNat 64 (trbSize * trb)

/-- The number of the TRB of a ring at a host address, if there is one. -/
def trbAt (trbPtr : Nat) : Option Nat :=
  if rings.ringSeg0 ring ≤ trbPtr ∧ (trbPtr - rings.ringSeg0 ring) % trbSize = 0 then
    some ((trbPtr - rings.ringSeg0 ring) / trbSize)
  else none

/-- Where a ring is. -/
def place : RingPlace := ⟨rings.pool, rings.ringSeg0 ring, rings.phyAddr ring⟩

/-- An event with its `TRBPtr`, or `none` where the conversion fails its assertion. -/
def convert (e : EvtTrb) : Option Event :=
  (usbHcGetHostAddrForPciAddr rings.pool e.pointer.toNat trbSize).map fun trbPtr =>
    { evtTrb := e, trbPtr := trbPtr }

end Rings

/-- The events that `XhcCheckUrbResult` looks at. -/
def EvtTrb.isResult (e : EvtTrb) : Bool :=
  e.type = trbTypeCommandCompltEvent || e.type = trbTypeTransEvent

/-- Such an event with its `TRBPtr`. -/
def Rings.result (rings : Rings) (e : EvtTrb) : Option Event :=
  if e.isResult then rings.convert e else none

/-- The fields of `URB` that the check of its result uses. -/
structure UrbState where
  ring : Nat
  urb : Urb
  startDone : Bool := false
  endDone : Bool := false
  finished : Bool := false
  completed : BitVec 64 := 0
  result : BitVec 32 := 0
  evtTrb : Option Event := none

/-- The URBs that a poll looks at: `PendingUrb`, the one that is checked, and
`AsyncIntTransfers`. -/
structure Checked where
  pendingUrb : Option Nat
  urb : Nat
  asyncIntTransfers : List Nat

/-! ## The functions -/

/-- The URB has failed, or has been stopped. -/
def UrbState.fail (u : UrbState) (err : BitVec 32) : UrbState :=
  { u with result := u.result ||| err, finished := true }

/-- Whether the bytes of a TRB count. -/
def countsBytes (type : BitVec 6) : Bool :=
  type = trbTypeDataStage || type = trbTypeNormal || type = trbTypeIsoch

/-- `Completed`, after an event with the given `Length` for `trb`; the difference may be
negative. -/
def addCompleted (completed : BitVec 64) (trb : TrbTemplate) (length : BitVec 24) : BitVec 64 :=
  if countsBytes trb.type then
    completed + BitVec.ofInt 64 (trb.length.toNat - length.toNat)
  else completed

/-- What a success does to the URB, one of whose TRBs is the one of the event. -/
def UrbState.succeed (rings : Rings) (u : UrbState) (e : Event) : UrbState :=
  let trb := rings.seg u.ring ((rings.trbAt u.ring e.trbPtr).getD 0)
  let completed := addCompleted u.completed trb e.evtTrb.length
  -- Only the first and the last TRB are looked at.
  let startDone := u.startDone || decide (e.trbPtr = rings.trbAddr u.ring u.urb.trbStart)
  let endDone := u.endDone || decide (e.trbPtr = rings.trbAddr u.ring u.urb.trbEnd)
  if startDone && endDone then
    { u with
      completed := completed
      startDone := startDone
      endDone := endDone
      finished := true
      evtTrb := some e }
  else { u with completed := completed, startDone := startDone, endDone := endDone }

/-- The `switch` over the completion code and what follows it, for `CheckedUrb`; whether the
loop goes on. -/
def UrbState.complete (rings : Rings) (u : UrbState) (e : Event) : UrbState × Bool :=
  match completionOf e.evtTrb.completecode with
  | .stallError => (u.fail efiUsbErrStall, false)
  | .babbleError => (u.fail efiUsbErrBabble, false)
  | .dataBufferError => (u.fail efiUsbErrBuffer, false)
  | .usbTransactionError => (u.fail efiUsbErrTimeout, false)
  | .stopped | .stoppedLengthInvalid => (u.fail efiUsbErrTimeout, true)
  | .shortPacket | .success => (u.succeed rings e, true)
  | .other => (u.fail efiUsbErrTimeout, false)

section Places

variable {rings : Rings} {c : Checked} {urbs urbs' : Nat → UrbState} {e : Event}

end Places

/-! ## Runs of polls -/

end XhciDxe
end EfiApps
