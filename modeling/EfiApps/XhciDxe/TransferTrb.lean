import Mathlib.Data.List.Basic
import EfiApps.XhciDxe.TransferRing
import EfiApps.XhciDxe.UsbHcMem

/-!
# Putting commands and transfers on a ring

A command is one TRB.  A control transfer is a setup stage, a data stage if there is data,
and a status stage.  A bulk or interrupt transfer is cut into pieces of at most `0x10000`
bytes, one normal TRB each.  Every TRB is filled in at `RingEnqueue`, and its cycle bit is
set last.
-/

namespace EfiApps
namespace XhciDxe

open LinkedRing (Op Produced)

/-! ## Requests -/

/-- `EFI_USB_DATA_DIRECTION`. -/
inductive UsbDataDirection
  | dataIn
  | dataOut
  | noData
  deriving DecidableEq, Repr, Inhabited

/-- `EFI_USB_DEVICE_REQUEST`. -/
structure UsbDeviceRequest where
  requestType : BitVec 8 := 0
  request : BitVec 8 := 0
  value : BitVec 16 := 0
  index : BitVec 16 := 0
  length : BitVec 16 := 0
  deriving DecidableEq, Repr, Inhabited

/-- The types of an endpoint context. -/
inductive EpType
  | notValid
  | isochOut
  | bulkOut
  | interruptOut
  | controlBidir
  | isochIn
  | bulkIn
  | interruptIn
  deriving DecidableEq, Repr

/-- The fields of `URB` that say what to transfer and where its TRBs are.  TRBs are numbered
as in the ring. -/
structure Urb where
  direction : UsbDataDirection := .dataOut
  request : UsbDeviceRequest := {}
  dataLen : Nat := 0
  dataPhy : BitVec 64 := 0
  trbStart : Nat := 0
  trbEnd : Nat := 0
  trbNum : Nat := 0
  deriving DecidableEq, Repr, Inhabited

/-! ## The fields of the TRBs -/

/-- An assignment to a bit field that starts at bit `lo`. -/
def setField {w n : Nat} (lo : Nat) (v : BitVec n) (word : BitVec w) : BitVec w :=
  (word &&& ~~~((BitVec.allOnes n).setWidth w <<< lo)) ||| (v.setWidth w <<< lo)

/-- The assignments for a normal TRB, for `len` bytes at `ptr`. -/
def normalFields (ptr : BitVec 64) (len : Nat) : List (TrbTemplate → TrbTemplate) :=
  [fun t => { t with parameter1 := xhcLow32Bit ptr },
    fun t => { t with parameter2 := xhcHigh32Bit ptr },
    fun t => { t with length := BitVec.ofNat 17 len },
    fun t => { t with tdSize := 0 },
    fun t => { t with intTarget := 0 },
    fun t => { t with isp := true },
    fun t => { t with ioc := true },
    fun t => { t with type := trbTypeNormal }]

/-- `TRT` of the setup stage. -/
def trtOf : UsbDataDirection → BitVec 2
  | .dataIn => 3
  | .dataOut => 2
  | .noData => 0

/-- `DIR` of the data stage. -/
def dataDirOf : UsbDataDirection → BitVec 1
  | .dataIn => 1
  | .dataOut => 0
  | .noData => 0

/-- `DIR` of the status stage: the other way. -/
def statusDirOf : UsbDataDirection → BitVec 1
  | .dataIn => 0
  | .dataOut => 1
  | .noData => 0

/-- The assignments for the setup stage. -/
def setupFields (r : UsbDeviceRequest) (direction : UsbDataDirection) :
    List (TrbTemplate → TrbTemplate) :=
  [fun t => { t with parameter1 := setField 0 r.requestType t.parameter1 },
    fun t => { t with parameter1 := setField 8 r.request t.parameter1 },
    fun t => { t with parameter1 := setField 16 r.value t.parameter1 },
    fun t => { t with parameter2 := setField 0 r.index t.parameter2 },
    fun t => { t with parameter2 := setField 16 r.length t.parameter2 },
    fun t => { t with length := 8 },
    fun t => { t with intTarget := 0 },
    fun t => { t with ioc := true },
    fun t => { t with idt := true },
    fun t => { t with type := trbTypeSetupStage },
    fun t => { t with control := setField 0 (trtOf direction) t.control }]

/-- The assignments for the data stage. -/
def dataFields (ptr : BitVec 64) (len : Nat) (direction : UsbDataDirection) :
    List (TrbTemplate → TrbTemplate) :=
  [fun t => { t with parameter1 := xhcLow32Bit ptr },
    fun t => { t with parameter2 := xhcHigh32Bit ptr },
    fun t => { t with length := BitVec.ofNat 17 len },
    fun t => { t with tdSize := 0 },
    fun t => { t with intTarget := 0 },
    fun t => { t with isp := true },
    fun t => { t with ioc := true },
    fun t => { t with idt := false },
    fun t => { t with ch := false },
    fun t => { t with type := trbTypeDataStage },
    fun t => { t with control := setField 0 (dataDirOf direction) t.control }]

/-- The assignments for the status stage. -/
def statusFields (direction : UsbDataDirection) : List (TrbTemplate → TrbTemplate) :=
  [fun t => { t with intTarget := 0 },
    fun t => { t with ioc := true },
    fun t => { t with ch := false },
    fun t => { t with type := trbTypeStatusStage },
    fun t => { t with control := setField 0 (statusDirOf direction) t.control }]

/-! ## The functions -/

/-- What `XhcCreateCmdTrb` does to the command ring; the URB has its TRB. -/
def xhcCreateCmdTrb (cmdTrb : TrbTemplate) (x : RingRun) : Option (Urb × RingRun) := do
  let x ← x.xhcSyncTrsRing
  let trbStart := x.ring.ringEnqueue
  -- `CopyMem`, then the cycle bit
  let x := (x.store trbStart cmdTrb).setCycleBit
  return ({ trbNum := 1, trbStart := trbStart, trbEnd := trbStart }, x)

/-- One stage or piece: fill in the TRB at `RingEnqueue` and hand it over. -/
def RingRun.putTrb (fields : List (TrbTemplate → TrbTemplate)) (x : RingRun) : RingRun :=
  (x.assignAll fields).setCycleBit

/-- The loop of the bulk and of the interrupt case, from `totalLen` bytes and `trbNum` TRBs
on. -/
def normalLoop (urb : Urb) (x : RingRun) (totalLen trbNum trbEnd : Nat) :
    Option (RingRun × Nat × Nat) :=
  if totalLen < urb.dataLen then
    let len := if totalLen + 0x10000 ≥ urb.dataLen then urb.dataLen - totalLen else 0x10000
    let trbStart := x.ring.ringEnqueue
    let ptr := urb.dataPhy + BitVec.ofNat 64 totalLen
    match (x.putTrb (normalFields ptr len)).xhcSyncTrsRing with
    | none => none
    | some x => normalLoop urb x (totalLen + len) (trbNum + 1) trbStart
  else some (x, trbNum, trbEnd)
termination_by urb.dataLen - totalLen
decreasing_by split <;> omega

/-- The data stage of the control case, if there is data. -/
def dataStage (urb : Urb) (x : RingRun) : Option (Urb × RingRun) :=
  if urb.dataLen > 0 then do
    let x ← x.xhcSyncTrsRing
    let x := x.putTrb (dataFields urb.dataPhy urb.dataLen urb.direction)
    return ({ urb with trbNum := urb.trbNum + 1 }, x)
  else some (urb, x)

/-- The control case. -/
def controlStages (urb : Urb) (x : RingRun) : Option (Urb × RingRun) := do
  let x := x.putTrb (setupFields urb.request urb.direction)
  let urb := { urb with trbNum := urb.trbNum + 1 }
  let (urb, x) ← dataStage urb x
  let x ← x.xhcSyncTrsRing
  let trbStart := x.ring.ringEnqueue
  let x := x.putTrb (statusFields urb.direction)
  let x ← x.xhcSyncTrsRing
  return ({ urb with trbNum := urb.trbNum + 1, trbEnd := trbStart }, x)

/-- `XhcCreateTransferTrb` from the construction of the TRBs on; `none` where an assertion
fails. -/
def xhcCreateTransferTrb (epType : EpType) (urb : Urb) (x : RingRun) :
    Option (Urb × RingRun) := do
  let x ← x.xhcSyncTrsRing
  let urb := { urb with trbStart := x.ring.ringEnqueue }
  match epType with
  | .controlBidir => controlStages urb x
  | .bulkOut | .bulkIn | .interruptOut | .interruptIn =>
      let (x, trbNum, trbEnd) ← normalLoop urb x 0 0 x.ring.ringEnqueue
      return ({ urb with trbNum := trbNum, trbEnd := trbEnd }, x)
  | _ => none

/-- Where a ring is: the memory pool, the host address of its segment, and the address of the
segment for the controller. -/
structure RingPlace where
  pool : UsbhcMemPool
  ringSeg0 : Nat
  phyAddr : BitVec 64

/-- The host address of a TRB of the ring. -/
def RingPlace.trbAddr (place : RingPlace) (trb : Nat) : Nat := place.ringSeg0 + trbSize * trb

/-- `UsbHcGetPciAddrForHostAddr` for a TRB of the ring, or `none` where it fails its
assertion. -/
def RingPlace.pciAddr (place : RingPlace) (trb : Nat) : Option (BitVec 64) :=
  (usbHcGetPciAddrForHostAddr place.pool (place.trbAddr trb) trbSize).map (BitVec.ofNat 64)

/-- The command of `XhcSetTrDequeuePointer`, for `PhyAddr` and the `RingPCS` of the ring. -/
def setTrDequeueTrb (phyAddr : BitVec 64) (ringPCS : Bool) : TrbTemplate where
  parameter1 := xhcLow32Bit phyAddr ||| (if ringPCS then 1 else 0)
  parameter2 := xhcHigh32Bit phyAddr
  cycleBit := true
  type := trbTypeSetTrDeque

/-- Where the controller reads on after that command, and with which cycle state: the lowest
bit of the pointer is the state, and the next three are no part of the address. -/
def dequeueOf (phyAddr : BitVec 64) (t : TrbTemplate) : Nat × Bool :=
  (((t.pointer &&& ~~~0xF#64) - phyAddr).toNat / trbSize, t.pointer.getLsbD 0)

/-- `XhcSetTrDequeuePointer`, when the controller has carried out the command; `none` where the
address of `RingEnqueue` cannot be converted. -/
def xhcSetTrDequeuePointer (place : RingPlace) (x : RingRun) : Option RingRun := do
  let phyAddr ← place.pciAddr x.ring.ringEnqueue
  let dequeue := dequeueOf place.phyAddr (setTrDequeueTrb phyAddr x.ring.ringPCS)
  return { x with done := x.done ++ [.moveConsumer dequeue.1 dequeue.2] }

/-! ## The TRBs that they build -/

/-- The normal TRB for `len` bytes at `ptr`, without its cycle bit. -/
def normalTrb (ptr : BitVec 64) (len : Nat) : TrbTemplate where
  parameter1 := xhcLow32Bit ptr
  parameter2 := xhcHigh32Bit ptr
  length := BitVec.ofNat 17 len
  isp := true
  ioc := true
  type := trbTypeNormal

/-- The setup stage: the request itself is the data. -/
def setupTrb (r : UsbDeviceRequest) (direction : UsbDataDirection) : TrbTemplate where
  parameter1 := setField 16 r.value (setField 8 r.request (setField 0 r.requestType 0))
  parameter2 := setField 16 r.length (setField 0 r.index 0)
  length := 8
  ioc := true
  idt := true
  type := trbTypeSetupStage
  control := setField 0 (trtOf direction) 0

/-- The data stage. -/
def dataTrb (ptr : BitVec 64) (len : Nat) (direction : UsbDataDirection) : TrbTemplate where
  parameter1 := xhcLow32Bit ptr
  parameter2 := xhcHigh32Bit ptr
  length := BitVec.ofNat 17 len
  isp := true
  ioc := true
  type := trbTypeDataStage
  control := setField 0 (dataDirOf direction) 0

/-- The status stage. -/
def statusTrb (direction : UsbDataDirection) : TrbTemplate where
  ioc := true
  type := trbTypeStatusStage
  control := setField 0 (statusDirOf direction) 0

/-- The pieces of a buffer, offset and length, follow on each other from `start` to `stop`,
and none is empty or longer than `limit`. -/
inductive Tiles (limit : Nat) : Nat → Nat → List (Nat × Nat) → Prop
  | done (stop : Nat) : Tiles limit stop stop []
  | piece {start stop len : Nat} {rest : List (Nat × Nat)} (hpos : 0 < len) (hle : len ≤ limit)
      (hrest : Tiles limit (start + len) stop rest) : Tiles limit start stop ((start, len) :: rest)

/-- How many TRBs the loop makes for so many bytes. -/
def trbCount (bytes : Nat) : Nat := (bytes + 0xFFFF) / 0x10000

/-- The TRBs from entry `n` of the ring on, with the cycle bits of their laps. -/
def onRing (cap : Nat) : Nat → List TrbTemplate → List TrbTemplate
  | _, [] => []
  | n, t :: ts => t.withCycleBit (lapBit cap n) :: onRing cap (n + 1) ts

@[simp]
theorem length_onRing (cap n : Nat) (ts : List TrbTemplate) :
    (onRing cap n ts).length = ts.length := by
  induction ts generalizing n with
  | nil => rfl
  | cons t ts ih => simp [onRing, ih]

theorem onRing_append (cap n : Nat) (ts us : List TrbTemplate) :
    onRing cap n (ts ++ us) = onRing cap n ts ++ onRing cap (n + ts.length) us := by
  induction ts generalizing n with
  | nil => rfl
  | cons t ts ih => simp [onRing, ih, Nat.add_assoc, Nat.add_comm 1]

/-! ## Each function keeps to the discipline -/

section Harmless

/-- An assignment that leaves the cycle bit and the type is harmless. -/
theorem Harmless.of_eq {field : TrbTemplate → TrbTemplate}
    (hbit : ∀ t, (field t).cycleBit = t.cycleBit) (htype : ∀ t, (field t).type = t.type) :
    Harmless field where
  cycleBit := hbit
  type t h := by rwa [htype]

/-- An assignment of another type than that of a link. -/
theorem Harmless.of_type {type : BitVec 6} (htype : type ≠ trbTypeLink) :
    Harmless fun t => { t with type := type } where
  cycleBit _ := rfl
  type _ _ := htype

theorem harmless_normalFields (ptr : BitVec 64) (len : Nat) :
    ∀ field ∈ normalFields ptr len, Harmless field := by
  simp only [normalFields, List.mem_cons, List.not_mem_nil, or_false, forall_eq_or_imp,
    forall_eq]
  refine ⟨?_, ?_, ?_, ?_, ?_, ?_, ?_, Harmless.of_type (by decide)⟩ <;>
    exact Harmless.of_eq (fun _ => rfl) fun _ => rfl

theorem harmless_setupFields (r : UsbDeviceRequest) (direction : UsbDataDirection) :
    ∀ field ∈ setupFields r direction, Harmless field := by
  simp only [setupFields, List.mem_cons, List.not_mem_nil, or_false, forall_eq_or_imp,
    forall_eq]
  refine ⟨?_, ?_, ?_, ?_, ?_, ?_, ?_, ?_, ?_, Harmless.of_type (by decide), ?_⟩ <;>
    exact Harmless.of_eq (fun _ => rfl) fun _ => rfl

theorem harmless_dataFields (ptr : BitVec 64) (len : Nat) (direction : UsbDataDirection) :
    ∀ field ∈ dataFields ptr len direction, Harmless field := by
  simp only [dataFields, List.mem_cons, List.not_mem_nil, or_false, forall_eq_or_imp,
    forall_eq]
  refine ⟨?_, ?_, ?_, ?_, ?_, ?_, ?_, ?_, ?_, Harmless.of_type (by decide), ?_⟩ <;>
    exact Harmless.of_eq (fun _ => rfl) fun _ => rfl

theorem harmless_statusFields (direction : UsbDataDirection) :
    ∀ field ∈ statusFields direction, Harmless field := by
  simp only [statusFields, List.mem_cons, List.not_mem_nil, or_false, forall_eq_or_imp,
    forall_eq]
  refine ⟨?_, ?_, ?_, Harmless.of_type (by decide), ?_⟩ <;>
    exact Harmless.of_eq (fun _ => rfl) fun _ => rfl

end Harmless

/-- The driver has gone from `x` to `x'`, and has put the TRBs `built` on the ring. -/
structure Puts (phyAddr : BitVec 64) (cap : Nat) (B : Nat → Nat → Prop) (x x' : RingRun)
    (p p' : Produced TrbTemplate) (built : List TrbTemplate) (synced : Bool) : Prop where
  advance : Advance phyAddr cap B x x' p p' synced
  handed : p'.handed = p.handed ++ onRing cap p.handed.length built
  /-- After `XhcSyncTrsRing` the place of the next TRB is clear. -/
  clear : synced = true →
    p'.cell (p'.handed.length % cap) = { cycleBit := !lapBit cap p'.handed.length }

section Puts

variable {phyAddr : BitVec 64} {cap : Nat} {B : Nat → Nat → Prop} {x y z : RingRun}
  {p q r : Produced TrbTemplate} {built built' : List TrbTemplate} {synced synced' : Bool}

theorem Puts.length (h : Puts phyAddr cap B x y p q built synced) :
    q.handed.length = p.handed.length + built.length := by
  rw [h.handed, List.length_append, length_onRing]

theorem Puts.trans (h : Puts phyAddr cap B x y p q built synced)
    (h' : Puts phyAddr cap B y z q r built' synced') :
    Puts phyAddr cap B x z p r (built ++ built') synced' where
  advance := h.advance.trans h'.advance
  handed := by rw [h'.handed, h.length, h.handed, onRing_append, List.append_assoc]
  clear := h'.clear

theorem puts_sync (h : RingInv phyAddr cap x.ring p synced) (hcap : 0 < cap)
    (hb : B p.handed.length p.known) :
    ∃ x' p', x.xhcSyncTrsRing = some x' ∧ Puts phyAddr cap B x x' p p' [] true := by
  obtain ⟨x', p', hsome, hadvance, hhanded, hclear⟩ := h.xhcSyncTrsRing hcap hb
  exact ⟨x', p', hsome, hadvance, by simp [hhanded, onRing], fun _ => hclear⟩

/-- A TRB is filled in and handed over. -/
theorem Puts.putTrb (h : Puts phyAddr cap B x y p q built true) (hcap : 0 < cap)
    (hb : B q.handed.length q.known) {fields : List (TrbTemplate → TrbTemplate)}
    (hfields : ∀ field ∈ fields, Harmless field) {t : TrbTemplate}
    (hbuilt : ∀ state state',
      (applyFields fields { cycleBit := state }).withCycleBit state' = t.withCycleBit state') :
    ∃ r, Puts phyAddr cap B x (y.putTrb fields) p r (built ++ [t]) false := by
  have hassign := h.advance.inv.assignAll hcap hb hfields
  have hput := hassign.inv.setCycleBit hcap hb
  refine ⟨_, h.trans ⟨hassign.trans hput, ?_, fun hfalse => by simp at hfalse⟩⟩
  simp only [Function.update_self, h.clear rfl, hbuilt]
  rfl

/-- The driver goes on to the place of the next TRB. -/
theorem Puts.sync (h : Puts phyAddr cap B x y p q built synced) (hcap : 0 < cap)
    (hb : B q.handed.length q.known) :
    ∃ z r, y.xhcSyncTrsRing = some z ∧ Puts phyAddr cap B x z p r built true := by
  obtain ⟨z, r, hsome, hputs⟩ := puts_sync h.advance.inv hcap hb
  have hall := h.trans hputs
  rw [List.append_nil] at hall
  exact ⟨z, r, hsome, hall⟩

theorem Puts.known (h : Puts phyAddr cap B x y p q built synced) : q.known = p.known :=
  h.advance.known

/-- A command is one entry, whatever cycle bit it comes with. -/
theorem puts_cmdTrb (h : RingInv phyAddr cap x.ring p synced) (hcap : 0 < cap)
    (hb : B p.handed.length p.known) {t : TrbTemplate} (htype : t.type ≠ trbTypeLink) :
    ∃ urb x' p', xhcCreateCmdTrb t x = some (urb, x') ∧
      Puts phyAddr cap B x x' p p' [t] false ∧
      urb = { trbNum := 1
              trbStart := p.handed.length % cap
              trbEnd := p.handed.length % cap } := by
  obtain ⟨y, q, hsome, hsync⟩ := puts_sync h hcap hb
  have hslot := hsync.advance.inv.slot_eq
  have hhanded : q.handed = p.handed := by simpa [onRing] using hsync.handed
  have hb' : B q.handed.length q.known := by rwa [hhanded, hsync.known]
  have hstate := hsync.advance.inv.state_eq
  -- Either the copy hands the command over, or setting the cycle bit does.
  have hput : ∃ r, Puts phyAddr cap B y ((y.store y.ring.ringEnqueue t).setCycleBit) q r [t]
      false := by
    by_cases hbit : t.cycleBit = lapBit cap q.handed.length
    · have hstore := hsync.advance.inv.store_handOver hcap hb' hbit htype
      have hagain := hstore.inv.setCycleBit_again (B := B) hcap
      refine ⟨_, hstore.trans hagain, ?_, fun hfalse => by simp at hfalse⟩
      have hsame : t.withCycleBit (lapBit cap q.handed.length) = t := by
        rw [← hbit]
        rfl
      simp [onRing, hsame]
    · have hold : t.cycleBit = (q.cell (q.handed.length % cap)).cycleBit := by
        rw [hsync.advance.inv.bit_next hcap]
        exact Bool.eq_not.mpr hbit
      have hstore := hsync.advance.inv.store_prepare hcap hb' hold htype
      have hput := hstore.inv.setCycleBit hcap hb'
      refine ⟨_, hstore.trans hput, ?_, fun hfalse => by simp at hfalse⟩
      simp [onRing]
  obtain ⟨r, hput⟩ := hput
  refine ⟨_, _, r, ?_, hsync.trans hput, rfl⟩
  unfold xhcCreateCmdTrb
  rw [hsome]
  simp [hslot, hhanded]

/-- The loop cuts the rest of the buffer into pieces and puts one TRB for each on the
ring. -/
theorem Puts.normalLoop (h : Puts phyAddr cap B x y p q built true) (hcap : 0 < cap)
    (urb : Urb) (totalLen trbNum trbEnd : Nat) (hle : totalLen ≤ urb.dataLen)
    (hb : ∀ n, n ≤ q.handed.length + trbCount (urb.dataLen - totalLen) → B n q.known) :
    ∃ z r pieces, XhciDxe.normalLoop urb y totalLen trbNum trbEnd =
        some (z, trbNum + pieces.length,
          if pieces = [] then trbEnd else (r.handed.length - 1) % cap) ∧
      Tiles 0x10000 totalLen urb.dataLen pieces ∧
      pieces.length = trbCount (urb.dataLen - totalLen) ∧
      Puts phyAddr cap B x z p r
        (built ++ pieces.map fun piece =>
          normalTrb (urb.dataPhy + BitVec.ofNat 64 piece.1) piece.2) true := by
  induction hleft : urb.dataLen - totalLen using Nat.strongRecOn
    generalizing y q built totalLen trbNum trbEnd with
  | _ left ih =>
      subst hleft
      rw [XhciDxe.normalLoop]
      by_cases hmore : totalLen < urb.dataLen
      · rw [if_pos hmore]
        obtain ⟨len, hlen⟩ : ∃ len, len = (if totalLen + 0x10000 ≥ urb.dataLen then
          urb.dataLen - totalLen else 0x10000) := ⟨_, rfl⟩
        have hlenPos : 0 < len := by
          rw [hlen]
          split <;> omega
        have hlenLe : len ≤ 0x10000 := by
          rw [hlen]
          split <;> omega
        have hfit : totalLen + len ≤ urb.dataLen := by
          rw [hlen]
          split <;> omega
        have hcount : trbCount (urb.dataLen - totalLen) =
            trbCount (urb.dataLen - (totalLen + len)) + 1 := by
          rw [hlen]
          unfold trbCount
          split <;> omega
        simp only [← hlen]
        -- One TRB, and on to the next place.
        obtain ⟨r, hput⟩ := h.putTrb hcap (hb _ (Nat.le_add_right _ _))
          (harmless_normalFields (urb.dataPhy + BitVec.ofNat 64 totalLen) len)
          (t := normalTrb (urb.dataPhy + BitVec.ofNat 64 totalLen) len)
          (fun _ _ => rfl)
        have hlength : r.handed.length = q.handed.length + 1 := by
          have := hput.length
          have := h.length
          simp only [List.length_append, List.length_singleton] at *
          omega
        have hknown : r.known = q.known := hput.known.trans h.known.symm
        obtain ⟨z, s, hsome, hsync⟩ := hput.sync hcap (by
          rw [hknown]
          exact hb _ (by omega))
        have hlength' : s.handed.length = r.handed.length := by
          rw [hsync.length, hput.length]
        have hknown' : s.known = q.known := hsync.known.trans h.known.symm
        rw [hsome]
        obtain ⟨z', r', pieces, hloop, htiles, hpieces, hputs⟩ :=
          ih (urb.dataLen - (totalLen + len)) (by omega) hsync (totalLen + len) (trbNum + 1)
            y.ring.ringEnqueue hfit (fun n hn => by
              rw [hknown']
              exact hb n (by omega)) rfl
        refine ⟨z', r', (totalLen, len) :: pieces, ?_, .piece hlenPos hlenLe htiles, ?_, ?_⟩
        · simp only
          rw [hloop, h.advance.inv.slot_eq]
          have hend : pieces = [] → r'.handed.length - 1 = q.handed.length := by
            intro hnil
            have hold := h.length
            have hnew := hputs.length
            simp only [hnil, List.length_append, List.length_map, List.length_nil,
              List.length_singleton] at hnew
            omega
          by_cases hnil : pieces = []
          · simp [hnil, hend hnil]
          · simp [hnil, Nat.add_assoc, Nat.add_comm 1]
        · rw [List.length_cons, hpieces, hcount]
        · simpa using hputs
      · have hstop : totalLen = urb.dataLen := by omega
        rw [if_neg hmore]
        refine ⟨y, q, [], by simp, hstop ▸ .done _, ?_, by simpa using h⟩
        simp [trbCount, hstop]

/-- The TRBs of a control transfer. -/
def controlTrbs (urb : Urb) : List TrbTemplate :=
  setupTrb urb.request urb.direction ::
    (if urb.dataLen > 0 then [dataTrb urb.dataPhy urb.dataLen urb.direction] else []) ++
      [statusTrb urb.direction]

/-- The stages of a control transfer are put on the ring in their order. -/
theorem Puts.controlStages (h : Puts phyAddr cap B x y p q [] true) (hcap : 0 < cap) (urb : Urb)
    (hb : ∀ n, n ≤ q.handed.length + (controlTrbs urb).length → B n q.known) :
    ∃ z r, XhciDxe.controlStages urb y =
        some ({ urb with
          trbNum := urb.trbNum + (controlTrbs urb).length
          trbEnd := (r.handed.length - 1) % cap }, z) ∧
      Puts phyAddr cap B x z p r (controlTrbs urb) true := by
  have hstart : q.handed.length = p.handed.length := by simpa using h.length
  obtain ⟨q₁, hsetup⟩ := h.putTrb hcap (hb _ (Nat.le_add_right _ _))
    (harmless_setupFields urb.request urb.direction)
    (t := setupTrb urb.request urb.direction) (fun _ _ => rfl)
  have hsetupLen : q₁.handed.length = q.handed.length + 1 := by
    rw [hsetup.length, hstart]
    rfl
  -- The data stage, if there is one, leaves the ring with the TRBs up to it.
  have hdata : ∃ w q₂ built, dataStage { urb with trbNum := urb.trbNum + 1 }
        (y.putTrb (setupFields urb.request urb.direction)) =
          some ({ urb with trbNum := urb.trbNum + built.length }, w) ∧
      controlTrbs urb = built ++ [statusTrb urb.direction] ∧
      Puts phyAddr cap B x w p q₂ built false := by
    by_cases hsome : urb.dataLen > 0
    · have hbound : q₁.handed.length ≤ q.handed.length + (controlTrbs urb).length := by
        simp only [controlTrbs, if_pos hsome, List.length_append, List.length_cons,
          List.length_nil]
        omega
      have hknown₁ : q₁.known = q.known := hsetup.known.trans h.known.symm
      obtain ⟨z, q₂, hsync, hsynced⟩ := hsetup.sync hcap (by
        rw [hknown₁]
        exact hb _ hbound)
      have hsame : q₂.handed.length = q₁.handed.length := by rw [hsynced.length, hsetup.length]
      have hknown₂ : q₂.known = q.known := hsynced.known.trans h.known.symm
      obtain ⟨q₃, hstage⟩ := hsynced.putTrb hcap (by
          rw [hknown₂, hsame]
          exact hb _ hbound)
        (harmless_dataFields urb.dataPhy urb.dataLen urb.direction)
        (t := dataTrb urb.dataPhy urb.dataLen urb.direction) (fun _ _ => rfl)
      refine ⟨_, q₃, _, ?_, ?_, hstage⟩
      · unfold dataStage
        rw [if_pos hsome, hsync]
        rfl
      · simp [controlTrbs, hsome]
    · refine ⟨_, q₁, _, ?_, ?_, hsetup⟩
      · unfold dataStage
        rw [if_neg hsome]
        rfl
      · simp [controlTrbs, hsome]
  obtain ⟨w, q₂, built, hstages, htrbs, hputs⟩ := hdata
  have hlen₂ : q₂.handed.length = q.handed.length + built.length := by
    rw [hputs.length, hstart]
  have htotal : (controlTrbs urb).length = built.length + 1 := by simp [htrbs]
  have hknown₂ : q₂.known = q.known := hputs.known.trans h.known.symm
  obtain ⟨z, q₃, hsync, hsynced⟩ := hputs.sync hcap (by
    rw [hknown₂]
    exact hb _ (by omega))
  have hlen₃ : q₃.handed.length = q₂.handed.length := by rw [hsynced.length, hputs.length]
  have hknown₃ : q₃.known = q.known := hsynced.known.trans h.known.symm
  obtain ⟨q₄, hstatus⟩ := hsynced.putTrb hcap (by
      rw [hknown₃]
      exact hb _ (by omega))
    (harmless_statusFields urb.direction) (t := statusTrb urb.direction) (fun _ _ => rfl)
  have hlen₄ : q₄.handed.length = q₃.handed.length + 1 := by
    rw [hstatus.length, hsynced.length, List.length_append, List.length_singleton,
      Nat.add_assoc]
  have hknown₄ : q₄.known = q.known := hstatus.known.trans h.known.symm
  obtain ⟨z', r, hsync', hall⟩ := hstatus.sync hcap (by
    rw [hknown₄]
    exact hb _ (by omega))
  have hlen : r.handed.length = q₄.handed.length := by rw [hall.length, hstatus.length]
  refine ⟨z', r, ?_, htrbs ▸ hall⟩
  unfold XhciDxe.controlStages
  simp only [hstages, bind, Option.bind, pure, hsync, hsync', hsynced.advance.inv.slot_eq]
  rw [htotal, hlen, hlen₄, Nat.add_sub_cancel, Nat.add_assoc]

/-- What a transfer on an endpoint of this type puts on the ring. -/
inductive TransferTrbs (urb : Urb) : EpType → List TrbTemplate → Prop
  | control : TransferTrbs urb .controlBidir (controlTrbs urb)
  | pieces {epType : EpType} {pieces : List (Nat × Nat)}
      (htype : epType = .bulkOut ∨ epType = .bulkIn ∨ epType = .interruptOut ∨
        epType = .interruptIn)
      (htiles : Tiles 0x10000 0 urb.dataLen pieces) :
      TransferTrbs urb epType (pieces.map fun piece =>
        normalTrb (urb.dataPhy + BitVec.ofNat 64 piece.1) piece.2)

/-- How many TRBs it takes, or `none` for the types that `XhcCreateTransferTrb` does not
support. -/
def transferSize (epType : EpType) (urb : Urb) : Option Nat :=
  match epType with
  | .controlBidir => some (controlTrbs urb).length
  | .bulkOut | .bulkIn | .interruptOut | .interruptIn => some (trbCount urb.dataLen)
  | .notValid | .isochOut | .isochIn => none

/-- `XhcCreateTransferTrb` puts the TRBs of the transfer on the ring, and the URB says where
they are. -/
theorem puts_transferTrb (h : RingInv phyAddr cap x.ring p synced) (hcap : 0 < cap)
    {epType : EpType} {urb : Urb} {size : Nat} (hsize : transferSize epType urb = some size)
    (hnum : urb.trbNum = 0) (hb : ∀ n, n ≤ p.handed.length + size → B n p.known) :
    ∃ x' p' built, xhcCreateTransferTrb epType urb x =
        some ({ urb with
          trbStart := p.handed.length % cap
          trbNum := size
          trbEnd := if size = 0 then p.handed.length % cap
            else (p.handed.length + size - 1) % cap }, x') ∧
      TransferTrbs urb epType built ∧ built.length = size ∧
      Puts phyAddr cap B x x' p p' built true := by
  obtain ⟨y, q, hsome, hsync⟩ := puts_sync h hcap (hb _ (Nat.le_add_right _ _))
  have hslot := hsync.advance.inv.slot_eq
  have hlen : q.handed.length = p.handed.length := by simpa using hsync.length
  have hknown := hsync.known
  -- The stages of a control transfer, or the pieces of all others.
  by_cases hcontrol : epType = .controlBidir
  · subst hcontrol
    obtain rfl : (controlTrbs urb).length = size := by simpa [transferSize] using hsize
    have hpos : (controlTrbs urb).length ≠ 0 := by simp [controlTrbs]
    obtain ⟨z, r, hstages, hputs⟩ := hsync.controlStages hcap
      { urb with trbStart := y.ring.ringEnqueue } (by
        rw [hlen, hknown]
        exact hb)
    refine ⟨z, r, _, ?_, .control, rfl, hputs⟩
    unfold xhcCreateTransferTrb
    simp only [hsome, bind, Option.bind, hstages]
    rw [hputs.length]
    simp only [hslot, hlen, hnum, if_neg hpos, Nat.zero_add]
    rfl
  · have htype : epType = .bulkOut ∨ epType = .bulkIn ∨ epType = .interruptOut ∨
        epType = .interruptIn := by
      cases epType <;> simp [transferSize] at hsize hcontrol ⊢
    obtain rfl : trbCount urb.dataLen = size := by
      rcases htype with rfl | rfl | rfl | rfl <;> simpa [transferSize] using hsize
    obtain ⟨z, r, pieces, hloop, htiles, hcount, hputs⟩ := hsync.normalLoop hcap
      { urb with trbStart := y.ring.ringEnqueue } 0 0 y.ring.ringEnqueue (Nat.zero_le _) (by
        rw [hlen, hknown]
        exact hb)
    refine ⟨z, r, _, ?_, .pieces htype htiles, ?_, hputs⟩
    · have hend : (if pieces = [] then y.ring.ringEnqueue else (r.handed.length - 1) % cap) =
          if trbCount urb.dataLen = 0 then p.handed.length % cap
          else (p.handed.length + trbCount urb.dataLen - 1) % cap := by
        have hcount' : pieces.length = trbCount urb.dataLen := hcount
        rw [hputs.length, hslot, hlen, ← hcount']
        simp
      have hcase : xhcCreateTransferTrb epType urb x = (do
          let x ← x.xhcSyncTrsRing
          let urb := { urb with trbStart := x.ring.ringEnqueue }
          let (x, trbNum, trbEnd) ← normalLoop urb x 0 0 x.ring.ringEnqueue
          return ({ urb with trbNum := trbNum, trbEnd := trbEnd }, x)) := by
        rcases htype with rfl | rfl | rfl | rfl <;> rfl
      rw [hcase]
      simp only [hsome, bind, Option.bind, hloop, pure]
      rw [hend, hslot, hlen, Nat.zero_add, hcount]
      rfl
    · rw [List.length_map, hcount]
      rfl

end Puts

end XhciDxe
end EfiApps
