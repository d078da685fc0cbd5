import Mathlib.Algebra.Group.Nat.Defs
import EfiApps.XhciDxe.MemAddresses
import EfiApps.XhciDxe.TransferTrb

/-!
# The driver and the controller on a ring

The driver puts commands and transfers on a ring, waits for them, and aborts those that do
not finish by moving the controller's dequeue pointer to its own enqueue pointer.  The
controller follows the cycle bits and the link.  It may do so between any two stores of the
driver.

For an abort the driver converts the address of `RingEnqueue`, as if a TRB had the size of a
whole unit of the memory pool.  That is the only assertion that can fail.
-/

namespace EfiApps
namespace XhciDxe

open LinkedRing

/-! ## The memory of a ring -/

/-- What `CreateTransferRing` has got: memory of the pool for `cap` TRBs and a link, and its
address for the controller. -/
structure RingPlace.Allocated (place : RingPlace) (whole : Prop) (s : PoolSystem) (cap : Nat) :
    Prop where
  pool : place.pool = s.pool
  reachable : PoolReachable whole s
  live : ⟨place.ringSeg0, trbSize * (cap + 1)⟩ ∈ s.live
  phyAddr : usbHcGetPciAddrForHostAddr s.pool place.ringSeg0 (trbSize * (cap + 1)) =
    some place.phyAddr.toNat
  aligned : place.phyAddr.toNat % trbSize = 0
  fits : place.phyAddr.toNat + trbSize * (cap + 1) ≤ 2 ^ 64

/-- The block that the ring is in. -/
structure RingPlace.InBlock (place : RingPlace) (cap : Nat) (block : UsbhcMemBlock) : Prop where
  mem : block ∈ place.pool.blocks
  holds : block.holds place.ringSeg0 (usbhcMemRound (trbSize * (cap + 1))) = true

/-- How far the block goes on from the start of the ring. -/
def RingPlace.room (place : RingPlace) (block : UsbhcMemBlock) : Nat :=
  block.bufHost + block.bufLen - place.ringSeg0

section Place

variable {place : RingPlace} {whole : Prop} {s : PoolSystem} {cap : Nat} {block : UsbhcMemBlock}

theorem RingPlace.Allocated.inBlock (h : place.Allocated whole s cap) :
    ∃ block, place.InBlock cap block := by
  obtain ⟨block, hblock, hholds⟩ := exists_block h.reachable h.live
  exact ⟨block, h.pool.symm ▸ hblock, hholds⟩

theorem usbhcMemRound_trbSize : usbhcMemRound trbSize = 64 := by decide

/-- Where the TRBs of the ring are. -/
theorem RingPlace.Allocated.device (h : place.Allocated whole s cap)
    (hblock : place.InBlock cap block) :
    block.bufHost ≤ place.ringSeg0 ∧
      place.ringSeg0 + trbSize * (cap + 1) ≤ block.bufHost + block.bufLen ∧
      place.phyAddr.toNat = block.buf + (place.ringSeg0 - block.bufHost) := by
  have hholds := (holds_iff _ _).mp hblock.holds
  obtain ⟨hsize, _, _⟩ := (poolInv_reachable h.reachable).consistent.placed _ h.live
  obtain ⟨hlow, hhigh⟩ := hsize.inside hblock.holds
  have hphy := h.phyAddr
  rw [usbHcGetPciAddrForHostAddr_inside h.reachable h.live (h.pool ▸ hblock.mem) hblock.holds
    (by simp [trbSize]) (Nat.le_refl _) (Nat.le_refl _), if_pos hholds.2, Option.some.injEq] at hphy
  exact ⟨hlow, hhigh, hphy.symm⟩

/-- The address of a TRB can be converted unless the block ends less than a unit behind it. -/
theorem RingPlace.Allocated.pciAddr (h : place.Allocated whole s cap)
    (hblock : place.InBlock cap block) {trb : Nat} (htrb : trb ≤ cap) :
    place.pciAddr trb =
      if trbSize * trb + 64 ≤ place.room block then
        some (place.phyAddr + BitVec.ofNat 64 (trbSize * trb))
      else none := by
  obtain ⟨hlow, hhigh, hphy⟩ := h.device hblock
  have hmul : trbSize * trb ≤ trbSize * cap := Nat.mul_le_mul_left _ htrb
  have hlast : trbSize * (cap + 1) = trbSize * cap + trbSize := Nat.mul_succ _ _
  have hinside : place.trbAddr trb + trbSize ≤ place.ringSeg0 + trbSize * (cap + 1) := by
    unfold RingPlace.trbAddr
    omega
  have hconvert : usbHcGetPciAddrForHostAddr s.pool (place.trbAddr trb) trbSize = _ :=
    usbHcGetPciAddrForHostAddr_inside h.reachable h.live (h.pool ▸ hblock.mem) hblock.holds
      (show 0 < trbSize by decide) (Nat.le_add_right _ _) hinside
  unfold RingPlace.pciAddr
  rw [h.pool, hconvert, usbhcMemRound_trbSize]
  unfold RingPlace.trbAddr RingPlace.room
  by_cases hfits : trbSize * trb + 64 ≤ block.bufHost + block.bufLen - place.ringSeg0
  · rw [if_pos hfits, if_pos (by omega), Option.map_some, Option.some.injEq]
    apply BitVec.eq_of_toNat_eq
    rw [BitVec.toNat_ofNat, BitVec.toNat_add, BitVec.toNat_ofNat, hphy]
    have hsum : block.buf + (place.ringSeg0 + trbSize * trb - block.bufHost) =
        block.buf + (place.ringSeg0 - block.bufHost) + trbSize * trb := by omega
    rw [hsum]
    simp
  · rw [if_neg hfits, if_neg (by omega)]
    rfl

end Place

/-! ## Moving the dequeue pointer -/

section Dequeue

/-- The lowest bits of an address that is a multiple of the size of a TRB. -/
theorem getLsbD_of_aligned {addr : BitVec 64} (h : addr.toNat % trbSize = 0) {i : Nat}
    (hi : i < 4) : addr.getLsbD i = false := by
  have hnat : addr.toNat = 2 ^ 4 * (addr.toNat / 16) := by
    have := Nat.div_add_mod addr.toNat 16
    simp only [trbSize] at h
    omega
  rw [BitVec.getLsbD, hnat, Nat.testBit_two_pow_mul]
  simp
  omega

/-- The bits of the mask that the controller applies to the pointer. -/
theorem getLsbD_pointerMask {i : Nat} (hi : i < 64) :
    (~~~0xF#64).getLsbD i = decide (4 ≤ i) := by
  have hall : ∀ j : Fin 64, (~~~0xF#64).getLsbD j = decide (4 ≤ j.val) := by decide
  exact hall ⟨i, hi⟩

/-- The controller reads on at the TRB whose address it gets, with the cycle state that it
gets. -/
theorem dequeueOf_setTrDequeueTrb {phyAddr addr : BitVec 64} {slot : Nat} (ringPCS : Bool)
    (haligned : phyAddr.toNat % trbSize = 0)
    (hfits : phyAddr.toNat + trbSize * slot < 2 ^ 64)
    (haddr : addr = phyAddr + BitVec.ofNat 64 (trbSize * slot)) :
    dequeueOf phyAddr (setTrDequeueTrb addr ringPCS) = (slot, ringPCS) := by
  have hnat : addr.toNat = phyAddr.toNat + trbSize * slot := by
    rw [haddr, BitVec.toNat_add, BitVec.toNat_ofNat]
    omega
  have hlow : ∀ i, i < 4 → addr.getLsbD i = false := by
    intro i hi
    apply getLsbD_of_aligned _ hi
    rw [hnat, Nat.add_mul_mod_self_left, haligned]
  obtain ⟨state, hstate⟩ : ∃ state : BitVec 64, state = if ringPCS then 1 else 0 := ⟨_, rfl⟩
  have hstateBit : ∀ i, state.getLsbD i = (decide (i = 0) && ringPCS) := by
    intro i
    rw [hstate]
    cases ringPCS <;> simp [BitVec.getLsbD_one]
  have hpointer : (setTrDequeueTrb addr ringPCS).pointer = addr ||| state := by
    have hhalves := TrbTemplate.pointer_of_halves
      (t := { parameter1 := xhcLow32Bit addr, parameter2 := xhcHigh32Bit addr }) rfl rfl
    have hwide : (if ringPCS then (1 : BitVec 32) else 0).setWidth 64 = state := by
      rw [hstate]
      cases ringPCS <;> rfl
    unfold TrbTemplate.pointer at hhalves
    unfold setTrDequeueTrb TrbTemplate.pointer
    simp only [BitVec.setWidth_or, hwide]
    rw [BitVec.or_assoc, BitVec.or_comm state, ← BitVec.or_assoc, hhalves]
  have hmask : (addr ||| state) &&& ~~~0xF#64 = addr := by
    apply BitVec.eq_of_getLsbD_eq
    intro i hi
    rw [BitVec.getLsbD_and, BitVec.getLsbD_or, getLsbD_pointerMask hi, hstateBit]
    by_cases hsmall : i < 4
    · rw [hlow i hsmall]
      simp [hsmall]
    · have hnonzero : i ≠ 0 := by omega
      have hge : 4 ≤ i := by omega
      simp [hnonzero, hge]
  have hslot : (addr - phyAddr).toNat / trbSize = slot := by
    have hsub : (addr - phyAddr).toNat = trbSize * slot := by
      rw [BitVec.toNat_sub_of_le]
      · omega
      · rw [BitVec.le_def]
        omega
    rw [hsub]
    exact Nat.mul_div_cancel_left _ (by decide)
  unfold dequeueOf
  rw [hpointer, hmask, hslot, BitVec.getLsbD_or, hlow 0 (by decide), hstateBit]
  simp

end Dequeue

/-! ## What the driver does on a ring -/

/-- The calls of the driver on one ring: a command, a transfer, the return of
`XhcExecTransfer` when all of it has been carried out, and `XhcSetTrDequeuePointer` after a
transfer that has not. -/
inductive RingCall
  | command (cmdTrb : TrbTemplate)
  | transfer (epType : EpType) (urb : Urb)
  | await
  | abort

/-- One call; `none` where it fails an assertion. -/
def RingCall.run (place : RingPlace) : RingCall → RingRun → Option RingRun
  | .command cmdTrb, x => (xhcCreateCmdTrb cmdTrb x).map Prod.snd
  | .transfer epType urb, x => (xhcCreateTransferTrb epType urb x).map Prod.snd
  | .await, x => some { x with done := x.done ++ [.await] }
  | .abort, x => xhcSetTrDequeuePointer place x

/-- Calls one after the other. -/
def runCalls (place : RingPlace) : List RingCall → RingRun → Option RingRun
  | [], x => some x
  | call :: calls, x => (call.run place x).bind (runCalls place calls)

/-- The TRBs that the calls put on the ring, in their order. -/
inductive CallTrbs : List RingCall → List TrbTemplate → Prop
  | nil : CallTrbs [] []
  | command {t : TrbTemplate} {calls : List RingCall} {built : List TrbTemplate}
      (hrest : CallTrbs calls built) : CallTrbs (.command t :: calls) (t :: built)
  | transfer {epType : EpType} {urb : Urb} {calls : List RingCall}
      {first built : List TrbTemplate} (hfirst : TransferTrbs urb epType first)
      (hrest : CallTrbs calls built) : CallTrbs (.transfer epType urb :: calls) (first ++ built)
  | await {calls : List RingCall} {built : List TrbTemplate} (hrest : CallTrbs calls built) :
      CallTrbs (.await :: calls) built
  | abort {calls : List RingCall} {built : List TrbTemplate} (hrest : CallTrbs calls built) :
      CallTrbs (.abort :: calls) built

/-- Calls that the driver makes when it has handed over `n` TRBs and knows `known` of them
to be taken: no command is a link, the URBs are new, an endpoint is of a supported type, and
only a transfer is aborted.  `B` bounds the two numbers whenever it writes. -/
def Within (B : Nat → Nat → Prop) : Nat → Nat → Bool → List RingCall → Prop
  | _, _, _, [] => True
  | n, known, _, .command t :: calls =>
      t.type ≠ trbTypeLink ∧ B n known ∧ Within B (n + 1) known false calls
  | n, known, _, .transfer epType urb :: calls =>
      ∃ size, transferSize epType urb = some size ∧ urb.trbNum = 0 ∧
        (∀ m, m ≤ n + size → B m known) ∧ Within B (n + size) known true calls
  | n, _, synced, .await :: calls => Within B n n synced calls
  | n, _, synced, .abort :: calls => synced = true ∧ Within B n n true calls

/-- Calls on a new ring. -/
def Supported (calls : List RingCall) : Prop := Within (fun _ _ => True) 0 0 true calls

/-- Calls on a new ring of which less than `cap` TRBs are outstanding whenever the driver
writes, as far as it knows from the transfers that it has waited for or aborted. -/
def InShortBursts (cap : Nat) (calls : List RingCall) : Prop :=
  Within (fun n known => n < known + cap) 0 0 true calls

/-- The calls of which the ring of `cap` TRBs and `n` TRBs handed over abort only where there is
a unit of memory between `RingEnqueue` and the end of the block, which goes on for `room` bytes
from the start of the ring. -/
def AbortsFit (room cap : Nat) : Nat → List RingCall → Prop
  | _, [] => True
  | n, .command _ :: calls => AbortsFit room cap (n + 1) calls
  | n, .transfer epType urb :: calls =>
      AbortsFit room cap (n + (transferSize epType urb).getD 0) calls
  | n, .await :: calls => AbortsFit room cap n calls
  | n, .abort :: calls => trbSize * (n % cap) + 64 ≤ room ∧ AbortsFit room cap n calls

/-- Where there is a unit of memory behind the link, every abort is possible. -/
theorem abortsFit_of_room {room cap : Nat} (hcap : 0 < cap) (hroom : trbSize * cap + 64 ≤ room)
    (calls : List RingCall) (n : Nat) : AbortsFit room cap n calls := by
  induction calls generalizing n with
  | nil => trivial
  | cons call calls ih =>
      cases call with
      | abort =>
          have hmul : trbSize * (n % cap) ≤ trbSize * cap :=
            Nat.mul_le_mul_left _ (Nat.le_of_lt (Nat.mod_lt n hcap))
          exact ⟨by omega, ih n⟩
      | _ => exact ih _

/-! ## The calls keep to the discipline -/

/-- Calls have taken the driver from `x` to `x'`, and have put `built` on the ring. -/
structure Executes (phyAddr : BitVec 64) (cap : Nat) (B : Nat → Nat → Prop) (x x' : RingRun)
    (p p' : Produced TrbTemplate) (built : List TrbTemplate) (synced : Bool) : Prop where
  steps : ∃ ops, x'.done = x.done ++ ops ∧
    Obeys (trbFormat phyAddr) cap (fun q => B q.handed.length q.known) p ops p'
  inv : RingInv phyAddr cap x'.ring p' synced
  handed : p'.handed = p.handed ++ onRing cap p.handed.length built

section Calls

variable {phyAddr : BitVec 64} {cap : Nat} {B : Nat → Nat → Prop} {x y z : RingRun}
  {p q r : Produced TrbTemplate} {built built' : List TrbTemplate} {synced synced' : Bool}
  {place : RingPlace} {whole : Prop} {s : PoolSystem} {block : UsbhcMemBlock}

theorem Puts.executes (h : Puts phyAddr cap B x y p q built synced) :
    Executes phyAddr cap B x y p q built synced where
  steps := h.advance.steps
  inv := h.advance.inv
  handed := h.handed

theorem Executes.trans (h : Executes phyAddr cap B x y p q built synced)
    (h' : Executes phyAddr cap B y z q r built' synced') :
    Executes phyAddr cap B x z p r (built ++ built') synced' where
  steps := by
    obtain ⟨ops, hdone, hobeys⟩ := h.steps
    obtain ⟨ops', hdone', hobeys'⟩ := h'.steps
    exact ⟨ops ++ ops', by rw [hdone', hdone, List.append_assoc], hobeys.append hobeys'⟩
  inv := h'.inv
  handed := by
    rw [h'.handed, h.handed, onRing_append, List.append_assoc, List.length_append,
      length_onRing]

theorem executes_refl (h : RingInv phyAddr cap x.ring p synced) :
    Executes phyAddr cap B x x p p [] synced where
  steps := ⟨[], by simp, .nil p⟩
  inv := h
  handed := by simp [onRing]

/-- Neither waiting nor moving the dequeue pointer changes the ring. -/
theorem executes_known {op : Op TrbTemplate} (h : RingInv phyAddr cap x.ring p synced)
    (hop : Allowed (trbFormat phyAddr) cap p op { p with known := p.handed.length })
    (hstore : ∀ slot t, op ≠ .store slot t) :
    Executes phyAddr cap B x { x with done := x.done ++ [op] } p
      { p with known := p.handed.length } [] synced where
  steps := ⟨[op], rfl, .single hop fun slot t heq => absurd heq (hstore slot t)⟩
  inv :=
    { number := h.number
      seg := h.seg
      bits := h.bits
      data := h.data
      linkType := h.linkType
      link := h.link
      gate := h.gate
      enqueue := by
        cases h.enqueue with
        | next hslot hstate hclosed => exact .next hslot hstate hclosed
        | last hlength hslot hstate hclosed => exact .last hlength hslot hstate hclosed }
  handed := by simp [onRing]

/-- The dequeue pointer is moved to the next TRB, if its address can be converted. -/
theorem executes_abort (h : RingInv place.phyAddr cap x.ring p true) (hcap : 0 < cap)
    (hplace : place.Allocated whole s cap) (hblock : place.InBlock cap block) :
    if trbSize * (p.handed.length % cap) + 64 ≤ place.room block then
      ∃ y, xhcSetTrDequeuePointer place x = some y ∧
        Executes place.phyAddr cap B x y p { p with known := p.handed.length } [] true
    else xhcSetTrDequeuePointer place x = none := by
  have hslot := h.slot_eq
  have hmod := Nat.mod_lt p.handed.length hcap
  have hmul : trbSize * (p.handed.length % cap) ≤ trbSize * cap :=
    Nat.mul_le_mul_left _ (Nat.le_of_lt hmod)
  have hlast : trbSize * (cap + 1) = trbSize * cap + 16 := Nat.mul_succ _ _
  have hfits := hplace.fits
  have haddr := hplace.pciAddr hblock (Nat.le_of_lt hmod)
  unfold xhcSetTrDequeuePointer
  rw [hslot, haddr]
  by_cases hroom : trbSize * (p.handed.length % cap) + 64 ≤ place.room block
  · have hdequeue := dequeueOf_setTrDequeueTrb x.ring.ringPCS hplace.aligned
      (show place.phyAddr.toNat + trbSize * (p.handed.length % cap) < 2 ^ 64 by omega) rfl
    rw [if_pos hroom, if_pos hroom, Option.bind_eq_bind, Option.bind_some, hdequeue, h.state_eq]
    exact ⟨_, rfl, executes_known h (.moveConsumer h.closed_eq) (fun _ _ => by simp)⟩
  · rw [if_neg hroom, if_neg hroom]
    rfl

/-- How calls end: all of them have been carried out, and have put their TRBs on the ring in
their order; or one of them has failed its assertion. -/
inductive CallsEnd (place : RingPlace) (cap room : Nat) (B : Nat → Nat → Prop)
    (calls later : List RingCall) (x : RingRun) (p : Produced TrbTemplate) : Prop
  | done {x' : RingRun} {p' : Produced TrbTemplate} {built : List TrbTemplate} {synced' : Bool}
      (hrun : runCalls place calls x = some x') (hfit : AbortsFit room cap p.handed.length calls)
      (htrbs : CallTrbs calls built)
      (hexec : Executes place.phyAddr cap B x x' p p' built synced')
      (hlater : Within B p'.handed.length p'.known synced' later)
  | failed (hrun : runCalls place calls x = none)
      (hfit : ¬AbortsFit room cap p.handed.length calls)

/-- What is known of calls that have been carried out. -/
theorem CallsEnd.of_run {calls later : List RingCall} {room : Nat}
    (h : CallsEnd place cap room B calls later x p) (hrun : runCalls place calls x = some y) :
    ∃ q built synced', CallTrbs calls built ∧
      Executes place.phyAddr cap B x y p q built synced' ∧
      Within B q.handed.length q.known synced' later := by
  cases h with
  | failed hfails _ =>
      rw [hrun] at hfails
      cases hfails
  | @done x' q built synced' hsome _ htrbs hexec hlater =>
      obtain rfl : y = x' := Option.some.inj (hrun.symm.trans hsome)
      exact ⟨q, built, synced', htrbs, hexec, hlater⟩

/-- A call that has been carried out comes before the others. -/
theorem CallsEnd.after {call : RingCall} {calls later : List RingCall} {room : Nat}
    {first : List TrbTemplate} (h : CallsEnd place cap room B calls later y q)
    (hrun : call.run place x = some y)
    (hfit : AbortsFit room cap p.handed.length (call :: calls) ↔
      AbortsFit room cap q.handed.length calls)
    (htrbs : ∀ built, CallTrbs calls built → CallTrbs (call :: calls) (first ++ built))
    (hexec : Executes place.phyAddr cap B x y p q first synced) :
    CallsEnd place cap room B (call :: calls) later x p := by
  cases h with
  | done hruns hfit' htrbs' hexec' hlater =>
      refine .done ?_ (hfit.mpr hfit') (htrbs _ htrbs') (hexec.trans hexec') hlater
      rw [runCalls, hrun, Option.bind_some, hruns]
  | failed hruns hfit' =>
      refine .failed ?_ (fun hfit'' => hfit' (hfit.mp hfit''))
      rw [runCalls, hrun, Option.bind_some, hruns]

/-- The calls fail no assertion but that of an abort. -/
theorem executes_calls (hcap : 0 < cap) (hplace : place.Allocated whole s cap)
    (hblock : place.InBlock cap block) {calls later : List RingCall}
    (h : RingInv place.phyAddr cap x.ring p synced)
    (hcalls : Within B p.handed.length p.known synced (calls ++ later)) :
    CallsEnd place cap (place.room block) B calls later x p := by
  induction calls generalizing x p synced with
  | nil => exact .done rfl trivial .nil (executes_refl h) hcalls
  | cons call calls ih =>
      cases call with
      | command t =>
          obtain ⟨htype, hb, hrest⟩ := hcalls
          obtain ⟨urb, y, q, hrun, hputs, _⟩ := puts_cmdTrb h hcap hb htype
          have hlen : q.handed.length = p.handed.length + 1 := hputs.length
          rw [← hlen, ← hputs.known] at hrest
          apply (ih hputs.advance.inv hrest).after _ _ _ hputs.executes
          · simp [RingCall.run, hrun]
          · rw [hlen]
            exact Iff.rfl
          · exact fun built htrbs => .command htrbs
      | transfer epType urb =>
          obtain ⟨size, hsize, hnum, hb, hrest⟩ := hcalls
          obtain ⟨y, q, first, hrun, hfirst, hcount, hputs⟩ :=
            puts_transferTrb h hcap hsize hnum hb
          have hlen : q.handed.length = p.handed.length + size := by rw [hputs.length, hcount]
          rw [← hlen, ← hputs.known] at hrest
          apply (ih hputs.advance.inv hrest).after _ _ _ hputs.executes
          · simp [RingCall.run, hrun]
          · rw [hlen, AbortsFit, hsize, Option.getD_some]
          · exact fun built htrbs => .transfer hfirst htrbs
      | await =>
          have hexec := executes_known (B := B) h .await (fun _ _ => by simp)
          exact (ih hexec.inv hcalls).after rfl Iff.rfl (fun _ => .await) hexec
      | abort =>
          obtain ⟨rfl, hcalls⟩ := hcalls
          have habort := executes_abort (B := B) h hcap hplace hblock
          by_cases hroom : trbSize * (p.handed.length % cap) + 64 ≤ place.room block
          · rw [if_pos hroom] at habort
            obtain ⟨y, hrun, hexec⟩ := habort
            have hcall : RingCall.run place .abort x = some y := hrun
            apply (ih hexec.inv hcalls).after hcall _ (fun _ => .abort) hexec
            exact ⟨fun hfit => hfit.2, fun hfit => ⟨hroom, hfit⟩⟩
          · rw [if_neg hroom] at habort
            refine .failed ?_ fun hfit => hroom hfit.1
            rw [runCalls, RingCall.run, habort]
            rfl

end Calls

/-! ## Every interleaving -/

/-- The driver's steps `x` on a new ring, with the controller at its first TRB. -/
def RingRun.system (phyAddr : BitVec 64) (cap : Nat) (x : RingRun) : RingSystem TrbTemplate :=
  .start x.done (createTransferRing (cap + 1) phyAddr).ringSeg0

/-- The driver with a new ring. -/
def RingPlace.newRing (place : RingPlace) (cap : Nat) : RingRun where
  ring := createTransferRing (cap + 1) place.phyAddr

section Interleavings

variable {place : RingPlace} {whole : Prop} {s : PoolSystem} {cap : Nat} {block : UsbhcMemBlock}
  {B : Nat → Nat → Prop} {calls : List RingCall} {x : RingRun}

theorem newRing_inv (place : RingPlace) {cap : Nat} :
    RingInv place.phyAddr cap (place.newRing cap).ring
      ⟨(createTransferRing (cap + 1) place.phyAddr).ringSeg0, [], 0, 0⟩ true :=
  ringInv_create place.phyAddr

/-- On a new ring an abort is the only call that can fail an assertion. -/
theorem runCalls_newRing_iff (hcap : 0 < cap) (hplace : place.Allocated whole s cap)
    (hblock : place.InBlock cap block) (hcalls : Within B 0 0 true calls) :
    (runCalls place calls (place.newRing cap)).isSome = true ↔
      AbortsFit (place.room block) cap 0 calls := by
  rw [← List.append_nil calls] at hcalls
  cases executes_calls hcap hplace hblock (newRing_inv place) hcalls with
  | done hrun hfit _ _ _ =>
      rw [hrun]
      exact ⟨fun _ => hfit, fun _ => rfl⟩
  | failed hrun hfit =>
      rw [hrun]
      exact iff_of_false Bool.false_ne_true hfit

/-- The calls on a new ring give a state that the invariant holds of. -/
theorem coherent_calls (hcap : 0 < cap) (hplace : place.Allocated whole s cap)
    (hcalls : Within B 0 0 true calls) (hrun : runCalls place calls (place.newRing cap) = some x) :
    ∃ built q, CallTrbs calls built ∧ q.handed = onRing cap 0 built ∧
      Coherent (trbFormat place.phyAddr) cap (fun p => B p.handed.length p.known) q
        (x.system place.phyAddr cap) 0 0 := by
  have hnew : RingInv place.phyAddr cap (place.newRing cap).ring _ true := newRing_inv place
  obtain ⟨block, hblock⟩ := hplace.inBlock
  rw [← List.append_nil calls] at hcalls
  obtain ⟨q, built, synced, htrbs, hexec, _⟩ :=
    (executes_calls hcap hplace hblock hnew hcalls).of_run hrun
  refine ⟨built, q, htrbs, by simpa using hexec.handed, ?_⟩
  obtain ⟨ops, hdone, hobeys⟩ := hexec.steps
  have hops : x.done = ops := by simpa [RingPlace.newRing] using hdone
  apply coherent_start
  · intro i hi
    rcases Nat.lt_or_eq_of_le hi with hlt | rfl
    · have hbit := hnew.bits i hlt
      simpa [bitAfter, lapBit] using hbit
    · simpa using hnew.gate
  · exact hnew.link
  · rw [hops]
    exact hobeys

/-- Whatever commands and transfers the driver puts on a ring, waits for and aborts: the only
assertion that can fail is that of an abort close to the end of the block.  However its stores
and the looks of the controller interleave: as long as the controller is less than a lap behind
whenever the driver changes a TRB, it takes the TRBs of the calls, each complete, once and in
their order. -/
theorem ring_faithful (hcap : 0 < cap) (hplace : place.Allocated whole s cap)
    (hcalls : Supported calls) :
    (∃ block, place.InBlock cap block ∧
      ((runCalls place calls (place.newRing cap)).isSome = true ↔
        AbortsFit (place.room block) cap 0 calls)) ∧
    ∀ x, runCalls place calls (place.newRing cap) = some x →
      ∃ built, CallTrbs calls built ∧
        ∀ sys, Relation.ReflTransGen (Step (trbFormat place.phyAddr) cap (RingSystem.Roomy cap))
            (x.system place.phyAddr cap) sys →
          Faithful (trbFormat place.phyAddr) (onRing cap 0 built) sys := by
  constructor
  · obtain ⟨block, hblock⟩ := hplace.inBlock
    exact ⟨block, hblock, runCalls_newRing_iff hcap hplace hblock hcalls⟩
  · intro x hrun
    obtain ⟨built, q, htrbs, hhanded, hstart⟩ := coherent_calls hcap hplace hcalls hrun
    refine ⟨built, htrbs, fun sys hsteps => ?_⟩
    obtain ⟨_, _, hend⟩ := hstart.run hcap hsteps
    rw [← hhanded]
    exact hend.faithful hcap

/-- If the driver waits for its transfers or aborts them before a whole lap is outstanding,
nothing more is needed of the order of the steps. -/
theorem ring_faithful_of_shortBursts (hcap : 0 < cap) (hplace : place.Allocated whole s cap)
    (hcalls : InShortBursts cap calls) :
    (∃ block, place.InBlock cap block ∧
      ((runCalls place calls (place.newRing cap)).isSome = true ↔
        AbortsFit (place.room block) cap 0 calls)) ∧
    ∀ x, runCalls place calls (place.newRing cap) = some x →
      ∃ built, CallTrbs calls built ∧
        ∀ sys, Relation.ReflTransGen (Step (trbFormat place.phyAddr) cap fun _ => True)
            (x.system place.phyAddr cap) sys →
          Faithful (trbFormat place.phyAddr) (onRing cap 0 built) sys := by
  constructor
  · obtain ⟨block, hblock⟩ := hplace.inBlock
    exact ⟨block, hblock, runCalls_newRing_iff hcap hplace hblock hcalls⟩
  · intro x hrun
    obtain ⟨built, q, htrbs, hhanded, hstart⟩ := coherent_calls hcap hplace hcalls hrun
    refine ⟨built, htrbs, fun sys hsteps => ?_⟩
    obtain ⟨_, _, hend⟩ := hstart.run_of_shortBurst hcap hsteps
    rw [← hhanded]
    exact hend.faithful hcap

end Interleavings

/-! ## A ring that fills its block -/

/-- All of the first block of a pool is one ring. -/
def fullBlockRing (pool : UsbhcMemPool) : RingPlace := ⟨pool, 0x10000, 0x80000000⟩

theorem allocated_fullBlockRing :
    ∃ s, (fullBlockRing s.pool).Allocated True s 4095 ∧
      ∀ block, (fullBlockRing s.pool).InBlock 4095 block →
        (fullBlockRing s.pool).room block = 0x10000 := by
  obtain ⟨s, hreachable, hlive, bits, hblocks⟩ := reachable_full
  have hsize : trbSize * (4095 + 1) = 0x10000 := by decide
  have hround : usbhcMemRound 0x10000 = 0x10000 := by decide
  have hlen : efiPagesToSize 16 = 0x10000 := by decide
  have haligned : (0x80000000 : BitVec 64).toNat % trbSize = 0 := by decide
  have hfits : (0x80000000 : BitVec 64).toNat + trbSize * (4095 + 1) ≤ 2 ^ 64 := by decide
  have hphy : usbHcGetPciAddrForHostAddr s.pool 0x10000 (trbSize * (4095 + 1)) =
      some (0x80000000 : BitVec 64).toNat := by
    unfold usbHcGetPciAddrForHostAddr
    rw [hblocks, hsize, hround, if_neg (by decide), List.find?_cons_of_pos]
    · simp [fullHead, newMemBlock]
    · rw [holds_iff]
      simp [fullHead, newMemBlock, hlen]
  refine ⟨s, ⟨rfl, hreachable, ?_, hphy, haligned, hfits⟩, fun block hblock => ?_⟩
  · show ⟨0x10000, trbSize * (4095 + 1)⟩ ∈ s.live
    rw [hsize, hlive]
    exact List.mem_cons_self
  · have hmem : block ∈ s.pool.blocks := hblock.mem
    rw [hblocks, List.mem_singleton] at hmem
    subst hmem
    simp [RingPlace.room, fullBlockRing, fullHead, newMemBlock, hlen]

/-- A bulk transfer of three pieces that is aborted, and another one that is waited for: no
assertion fails.  After 4092 commands the abort fails. -/
theorem ring_faithful_bulk :
    ∃ (s : PoolSystem) (x : RingRun) (built : List TrbTemplate), runCalls (fullBlockRing s.pool)
        [.transfer .bulkIn { dataLen := 0x28000 }, .abort, .transfer .bulkIn { dataLen := 512 },
          .await] ((fullBlockRing s.pool).newRing 4095) = some x ∧
      CallTrbs [.transfer .bulkIn { dataLen := 0x28000 }, .abort,
        .transfer .bulkIn { dataLen := 512 }, .await] built ∧
      (∀ sys, Relation.ReflTransGen (Step (trbFormat 0x80000000) 4095 (RingSystem.Roomy 4095))
          (x.system 0x80000000 4095) sys →
        Faithful (trbFormat 0x80000000) (onRing 4095 0 built) sys) ∧
      runCalls (fullBlockRing s.pool) [.transfer .bulkIn { dataLen := 0xFFD0000 }, .abort]
        ((fullBlockRing s.pool).newRing 4095) = none := by
  obtain ⟨s, hplace, hroom⟩ := allocated_fullBlockRing
  obtain ⟨⟨block, hblock, hiff⟩, hfaithful⟩ := ring_faithful (by decide) hplace
    (show Supported [.transfer .bulkIn { dataLen := 0x28000 }, .abort,
        .transfer .bulkIn { dataLen := 512 }, .await]
      from ⟨3, rfl, rfl, fun _ _ => trivial, rfl, 1, rfl, rfl, fun _ _ => trivial, trivial⟩)
  obtain ⟨x, hrun⟩ := Option.isSome_iff_exists.mp (hiff.mpr (by
    rw [hroom block hblock]
    exact ⟨by decide, trivial⟩))
  obtain ⟨built, htrbs, hall⟩ := hfaithful x hrun
  obtain ⟨⟨block', hblock', hiff'⟩, _⟩ := ring_faithful (by decide) hplace
    (show Supported [.transfer .bulkIn { dataLen := 0xFFD0000 }, .abort]
      from ⟨4093, rfl, rfl, fun _ _ => trivial, rfl, trivial⟩)
  refine ⟨s, x, built, hrun, htrbs, hall, Option.eq_none_iff_forall_ne_some.mpr fun y hy => ?_⟩
  have hfit := hiff'.mp (by rw [hy]; rfl)
  rw [hroom block' hblock'] at hfit
  exact absurd hfit.1 (by decide)

/-- The same without a condition on the order of the steps. -/
theorem ring_faithful_of_shortBursts_bulk :
    ∃ (s : PoolSystem) (x : RingRun) (built : List TrbTemplate), runCalls (fullBlockRing s.pool)
        [.transfer .bulkIn { dataLen := 0x28000 }, .abort, .transfer .bulkIn { dataLen := 512 },
          .await] ((fullBlockRing s.pool).newRing 4095) = some x ∧
      CallTrbs [.transfer .bulkIn { dataLen := 0x28000 }, .abort,
        .transfer .bulkIn { dataLen := 512 }, .await] built ∧
      ∀ sys, Relation.ReflTransGen (Step (trbFormat 0x80000000) 4095 fun _ => True)
          (x.system 0x80000000 4095) sys →
        Faithful (trbFormat 0x80000000) (onRing 4095 0 built) sys := by
  obtain ⟨s, hplace, hroom⟩ := allocated_fullBlockRing
  obtain ⟨⟨block, hblock, hiff⟩, hfaithful⟩ := ring_faithful_of_shortBursts (by decide) hplace
    (show InShortBursts 4095 [.transfer .bulkIn { dataLen := 0x28000 }, .abort,
        .transfer .bulkIn { dataLen := 512 }, .await]
      from ⟨3, rfl, rfl, fun m hm => by omega, rfl, 1, rfl, rfl, fun m hm => by omega, trivial⟩)
  obtain ⟨x, hrun⟩ := Option.isSome_iff_exists.mp (hiff.mpr (by
    rw [hroom block hblock]
    exact ⟨by decide, trivial⟩))
  obtain ⟨built, htrbs, hall⟩ := hfaithful x hrun
  exact ⟨s, x, built, hrun, htrbs, hall⟩

end XhciDxe
end EfiApps
