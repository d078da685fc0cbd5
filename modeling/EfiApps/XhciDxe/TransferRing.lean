import EfiApps.XhciDxe.Trb

/-!
# Transfer rings

The command ring and the rings of the endpoints are one segment of TRBs each, the last of
which is a link back to the first.  `XhcSyncTrsRing` finds the TRB to write next from the
cycle bits alone: it goes on over the TRBs whose cycle bit is that of the producer.

The controller may read the segment between any two stores of the driver.  So the functions
are modelled with the list of the stores that they make, in their order.
-/

namespace EfiApps
namespace XhciDxe

open LinkedRing (Op Produced Allowed Obeys handedBy)

/-! ## The ring -/

/-- `TRANSFER_RING`.  The TRBs of the segment are numbered from `RingSeg0` on, and
`RingEnqueue` is the number of its TRB.  `RingPCS` is only ever `0` or `1`. -/
structure TransferRing where
  ringSeg0 : Nat → TrbTemplate
  trbNumber : Nat
  ringEnqueue : Nat
  ringPCS : Bool

/-- `CreateTransferRing`, for a segment whose PCI address is `phyAddr`. -/
def createTransferRing (trbNum : Nat) (phyAddr : BitVec 64) : TransferRing where
  ringSeg0 := Function.update (fun _ => {}) (trbNum - 1)
    { type := trbTypeLink
      parameter1 := xhcLow32Bit phyAddr
      parameter2 := xhcHigh32Bit phyAddr
      ent := true
      cycleBit := false }
  trbNumber := trbNum
  ringEnqueue := 0
  ringPCS := true

/-- A ring and what the driver has done to it so far, oldest first. -/
structure RingRun where
  ring : TransferRing
  done : List (Op TrbTemplate) := []

/-- Assignments to the fields of a TRB, one after the other. -/
def applyFields (fields : List (TrbTemplate → TrbTemplate)) (t : TrbTemplate) : TrbTemplate :=
  fields.foldl (fun t field => field t) t

namespace RingRun

/-- A store to the segment. -/
def store (slot : Nat) (t : TrbTemplate) (x : RingRun) : RingRun where
  ring := { x.ring with ringSeg0 := Function.update x.ring.ringSeg0 slot t }
  done := x.done ++ [.store slot t]

/-- An assignment to a field of the TRB at `RingEnqueue`. -/
def assign (field : TrbTemplate → TrbTemplate) (x : RingRun) : RingRun :=
  x.store x.ring.ringEnqueue (field (x.ring.ringSeg0 x.ring.ringEnqueue))

/-- Assignments to fields of that TRB. -/
def assignAll (fields : List (TrbTemplate → TrbTemplate)) (x : RingRun) : RingRun :=
  fields.foldl (fun x field => x.assign field) x

/-- `CycleBit = RingPCS & BIT0` for the TRB at `RingEnqueue`. -/
def setCycleBit (x : RingRun) : RingRun :=
  x.assign (.withCycleBit x.ring.ringPCS)

/-- The cycle bit of the link becomes that of the producer, and the producer toggles its
own. -/
def turnLink (slot : Nat) (x : RingRun) : RingRun :=
  let x := x.store slot ((x.ring.ringSeg0 slot).withCycleBit x.ring.ringPCS)
  { x with ring := { x.ring with ringPCS := !x.ring.ringPCS } }

/-- The loop of `XhcSyncTrsRing` breaks at `TrsTrb`. -/
def syncBreaks (x : RingRun) (trsTrb : Nat) : Bool :=
  (x.ring.ringSeg0 trsTrb).cycleBit != x.ring.ringPCS

/-- One iteration of the loop that does not break; `none` where it fails its assertion that the
link toggles the cycle state. -/
def syncTrb (x : RingRun) (trsTrb : Nat) : Option (RingRun × Nat) :=
  if (x.ring.ringSeg0 (trsTrb + 1)).type = trbTypeLink then
    if (x.ring.ringSeg0 (trsTrb + 1)).ent then some (x.turnLink (trsTrb + 1), 0) else none
  else some (x, trsTrb + 1)

/-- The loop, with so many iterations left; `none` if it runs out of them. -/
def syncLoop : Nat → RingRun → Nat → Option (RingRun × Nat)
  | 0, _, _ => none
  | left + 1, x, trsTrb =>
      if x.syncBreaks trsTrb then some (x, trsTrb)
      else
        match x.syncTrb trsTrb with
        | none => none
        | some (x, trsTrb) => syncLoop left x trsTrb

/-- The fields that `XhcSyncTrsRing` clears, all but the cycle bit. -/
def clearFields : List (TrbTemplate → TrbTemplate) :=
  [fun t => { t with parameter1 := 0 },
    fun t => { t with parameter2 := 0 },
    fun t => { t with length := 0, tdSize := 0, intTarget := 0 },
    fun t =>
      { t with
        ent := false
        isp := false
        ns := false
        ch := false
        ioc := false
        idt := false
        rsvdZ1 := 0 },
    fun t => { t with type := 0 },
    fun t => { t with control := 0 }]

/-- `XhcSyncTrsRing`; `none` where it fails an assertion: that of its loop, or that the loop
breaks. -/
def xhcSyncTrsRing (x : RingRun) : Option RingRun := do
  let (x, trsTrb) ← syncLoop x.ring.trbNumber x x.ring.ringEnqueue
  return { x with ring := { x.ring with ringEnqueue := trsTrb } }.assignAll clearFields

end RingRun

/-! ## What holds of a ring between the functions -/

/-- Whether `RingEnqueue` is the place of the next TRB, or still that of the last one. -/
inductive EnqueueAt (cap : Nat) (r : TransferRing) (p : Produced TrbTemplate) : Bool → Prop
  | next (hslot : r.ringEnqueue = p.handed.length % cap)
      (hstate : r.ringPCS = lapBit cap p.handed.length)
      (hclosed : p.closed = p.handed.length / cap) : EnqueueAt cap r p true
  | last {m : Nat} (hlength : p.handed.length = m + 1) (hslot : r.ringEnqueue = m % cap)
      (hstate : r.ringPCS = lapBit cap m) (hclosed : p.closed = m / cap) :
      EnqueueAt cap r p false

/-- The ring `r` of `cap` TRBs and a link, with the segment at `phyAddr`, is what the steps
in `p` have made of it. -/
structure RingInv (phyAddr : BitVec 64) (cap : Nat) (r : TransferRing)
    (p : Produced TrbTemplate) (synced : Bool) : Prop where
  number : r.trbNumber = cap + 1
  seg : r.ringSeg0 = p.cell
  bits : ∀ i, i < cap → (p.cell i).cycleBit = bitAfter cap p.handed.length i
  data : ∀ i, i < cap → (p.cell i).type ≠ trbTypeLink
  linkType : (p.cell cap).type = trbTypeLink
  link : (trbFormat phyAddr).link (p.cell cap) = some (0, true)
  gate : (p.cell cap).cycleBit = decide (p.closed % 2 = 1)
  enqueue : EnqueueAt cap r p synced

/-- The driver went from `x` to `x'` by steps that the discipline allows, and what they have
made of the ring is `p'` instead of `p`.  `B` bounds what it does without waiting. -/
structure Advance (phyAddr : BitVec 64) (cap : Nat) (B : Nat → Nat → Prop) (x x' : RingRun)
    (p p' : Produced TrbTemplate) (synced : Bool) : Prop where
  steps : ∃ ops, x'.done = x.done ++ ops ∧
    Obeys (trbFormat phyAddr) cap (fun q => B q.handed.length q.known) p ops p'
  inv : RingInv phyAddr cap x'.ring p' synced
  known : p'.known = p.known

namespace Advance

variable {phyAddr : BitVec 64} {cap : Nat} {B : Nat → Nat → Prop} {x y z : RingRun}
  {p q r : Produced TrbTemplate} {synced synced' : Bool}

theorem refl (h : RingInv phyAddr cap x.ring p synced) :
    Advance phyAddr cap B x x p p synced where
  steps := ⟨[], by simp, .nil p⟩
  inv := h
  known := rfl

theorem trans (h : Advance phyAddr cap B x y p q synced)
    (h' : Advance phyAddr cap B y z q r synced') : Advance phyAddr cap B x z p r synced' where
  steps := by
    obtain ⟨ops, hdone, hobeys⟩ := h.steps
    obtain ⟨ops', hdone', hobeys'⟩ := h'.steps
    exact ⟨ops ++ ops', by rw [hdone', hdone, List.append_assoc], hobeys.append hobeys'⟩
  inv := h'.inv
  known := h'.known.trans h.known

end Advance

/-! ## The ring at its creation -/

theorem ringInv_create (phyAddr : BitVec 64) {cap : Nat} :
    RingInv phyAddr cap (createTransferRing (cap + 1) phyAddr)
      ⟨(createTransferRing (cap + 1) phyAddr).ringSeg0, [], 0, 0⟩ true where
  number := rfl
  seg := rfl
  bits i hi := by
    have hne : i ≠ cap := by omega
    simp [createTransferRing, hne, bitAfter, lapBit]
  data i hi := by
    have hne : i ≠ cap := by omega
    simp [createTransferRing, hne, trbTypeLink]
  linkType := by simp [createTransferRing]
  link := by
    simp only [createTransferRing, Nat.add_sub_cancel, Function.update_self]
    exact trbFormat_link_eq_zero rfl rfl rfl
  gate := by simp [createTransferRing]
  enqueue := .next (by simp [createTransferRing]) (by simp [createTransferRing, lapBit])
    (by simp)

/-! ## Filling in a TRB -/

/-- An assignment to a field other than the cycle bit that makes no link of the TRB. -/
structure Harmless (field : TrbTemplate → TrbTemplate) : Prop where
  cycleBit : ∀ t, (field t).cycleBit = t.cycleBit
  type : ∀ t, t.type ≠ trbTypeLink → (field t).type ≠ trbTypeLink

namespace RingInv

variable {phyAddr : BitVec 64} {cap : Nat} {B : Nat → Nat → Prop} {x : RingRun}
  {p : Produced TrbTemplate} {synced : Bool}

theorem slot_eq (h : RingInv phyAddr cap x.ring p true) :
    x.ring.ringEnqueue = p.handed.length % cap := by
  cases h.enqueue with
  | next hslot _ _ => exact hslot

theorem state_eq (h : RingInv phyAddr cap x.ring p true) :
    x.ring.ringPCS = lapBit cap p.handed.length := by
  cases h.enqueue with
  | next _ hstate _ => exact hstate

theorem closed_eq (h : RingInv phyAddr cap x.ring p true) :
    p.closed = p.handed.length / cap := by
  cases h.enqueue with
  | next _ _ hclosed => exact hclosed

/-- The TRB that is written next has not got the cycle bit of its lap. -/
theorem bit_next (h : RingInv phyAddr cap x.ring p synced) (hcap : 0 < cap) :
    (p.cell (p.handed.length % cap)).cycleBit = !lapBit cap p.handed.length := by
  rw [h.bits _ (Nat.mod_lt _ hcap), bitAfter, if_neg (Nat.lt_irrefl _)]

/-- A store to the next TRB that leaves its cycle bit. -/
theorem store_prepare (h : RingInv phyAddr cap x.ring p true) (hcap : 0 < cap)
    (hb : B p.handed.length p.known) {t : TrbTemplate}
    (hbit : t.cycleBit = (p.cell (p.handed.length % cap)).cycleBit)
    (htype : t.type ≠ trbTypeLink) :
    Advance phyAddr cap B x (x.store x.ring.ringEnqueue t) p
      { p with cell := Function.update p.cell (p.handed.length % cap) t } true := by
  have hmod := Nat.mod_lt p.handed.length hcap
  have hlarge : cap ≠ p.handed.length % cap := by omega
  have hslot := h.slot_eq
  refine ⟨⟨[.store _ _], rfl, .single ?_ fun _ _ _ _ => hb⟩, ?_, rfl⟩
  · rw [hslot]
    exact Allowed.prepare h.closed_eq hbit
  · exact
      { number := h.number
        seg := by
          show Function.update x.ring.ringSeg0 x.ring.ringEnqueue _ = _
          rw [hslot, h.seg]
        bits := by
          intro i hi
          by_cases heq : i = p.handed.length % cap
          · simp [heq, hbit, h.bits _ hmod]
          · simp [heq, h.bits i hi]
        data := by
          intro i hi
          by_cases heq : i = p.handed.length % cap
          · simpa [heq] using htype
          · simpa [heq] using h.data i hi
        linkType := by simp [hlarge, h.linkType]
        link := by simp [hlarge, h.link]
        gate := by simp [hlarge, h.gate]
        enqueue := .next hslot h.state_eq h.closed_eq }

/-- A store to the next TRB that sets the cycle bit of its lap hands it over. -/
theorem store_handOver (h : RingInv phyAddr cap x.ring p true) (hcap : 0 < cap)
    (hb : B p.handed.length p.known) {t : TrbTemplate}
    (hbit : t.cycleBit = lapBit cap p.handed.length) (htype : t.type ≠ trbTypeLink) :
    Advance phyAddr cap B x (x.store x.ring.ringEnqueue t) p
      { p with
        cell := Function.update p.cell (p.handed.length % cap) t
        handed := p.handed ++ [t] } false := by
  have hmod := Nat.mod_lt p.handed.length hcap
  have hlarge : cap ≠ p.handed.length % cap := by omega
  have hslot := h.slot_eq
  refine ⟨⟨[.store _ _], rfl, .single ?_ fun _ _ _ _ => hb⟩, ?_, rfl⟩
  · rw [hslot]
    apply Allowed.handOver h.closed_eq
    · simp [hbit, h.bit_next hcap]
    · exact trbFormat_link_eq_none htype
  · exact
      { number := h.number
        seg := by
          show Function.update x.ring.ringSeg0 x.ring.ringEnqueue _ = _
          rw [hslot, h.seg]
        bits := by
          intro i hi
          rw [List.length_append, List.length_singleton, bitAfter_succ hcap hi]
          by_cases heq : i = p.handed.length % cap
          · simp [heq, hbit]
          · simp [heq, h.bits i hi]
        data := by
          intro i hi
          by_cases heq : i = p.handed.length % cap
          · simpa [heq] using htype
          · simpa [heq] using h.data i hi
        linkType := by simp [hlarge, h.linkType]
        link := by simp [hlarge, h.link]
        gate := by simp [hlarge, h.gate]
        enqueue := .last (by simp) hslot h.state_eq h.closed_eq }

/-- An assignment to a field of the next TRB. -/
theorem assign (h : RingInv phyAddr cap x.ring p true) (hcap : 0 < cap)
    (hb : B p.handed.length p.known) {field : TrbTemplate → TrbTemplate}
    (hfield : Harmless field) :
    Advance phyAddr cap B x (x.assign field) p
      { p with
        cell := Function.update p.cell (p.handed.length % cap)
          (field (p.cell (p.handed.length % cap))) } true := by
  have hmod := Nat.mod_lt p.handed.length hcap
  have hstore : x.assign field = x.store x.ring.ringEnqueue
      (field (p.cell (p.handed.length % cap))) := by
    unfold RingRun.assign
    rw [congrFun h.seg, h.slot_eq]
  rw [hstore]
  exact h.store_prepare hcap hb (hfield.cycleBit _) (hfield.type _ (h.data _ hmod))

/-- Assignments to fields of the next TRB, one after the other. -/
theorem assignAll (h : RingInv phyAddr cap x.ring p true) (hcap : 0 < cap)
    (hb : B p.handed.length p.known) {fields : List (TrbTemplate → TrbTemplate)}
    (hfields : ∀ field ∈ fields, Harmless field) :
    Advance phyAddr cap B x (x.assignAll fields) p
      { p with
        cell := Function.update p.cell (p.handed.length % cap)
          (applyFields fields (p.cell (p.handed.length % cap))) } true := by
  induction fields generalizing x p with
  | nil => simpa [RingRun.assignAll, applyFields] using Advance.refl h
  | cons field rest ih =>
      have hfirst := h.assign hcap hb (hfields field (by simp))
      have hrest := ih hfirst.inv hb fun f hf => hfields f (by simp [hf])
      simpa [RingRun.assignAll, applyFields] using hfirst.trans hrest

/-- The TRB is handed over. -/
theorem setCycleBit (h : RingInv phyAddr cap x.ring p true) (hcap : 0 < cap)
    (hb : B p.handed.length p.known) :
    Advance phyAddr cap B x x.setCycleBit p
      { p with
        cell := Function.update p.cell (p.handed.length % cap)
          ((p.cell (p.handed.length % cap)).withCycleBit (lapBit cap p.handed.length))
        handed := p.handed ++
          [(p.cell (p.handed.length % cap)).withCycleBit (lapBit cap p.handed.length)] }
      false := by
  have hmod := Nat.mod_lt p.handed.length hcap
  have hstore : x.setCycleBit = x.store x.ring.ringEnqueue
      ((p.cell (p.handed.length % cap)).withCycleBit (lapBit cap p.handed.length)) := by
    unfold RingRun.setCycleBit RingRun.assign
    rw [congrFun h.seg, h.slot_eq, h.state_eq]
  rw [hstore]
  exact h.store_handOver hcap hb rfl (h.data _ hmod)

/-- Setting the cycle bit once more changes nothing. -/
theorem setCycleBit_again (h : RingInv phyAddr cap x.ring p false) (hcap : 0 < cap) :
    Advance phyAddr cap B x x.setCycleBit p p false := by
  cases h.enqueue with
  | @last m hlength hslot hstate hclosed =>
      have hsame : (p.cell (m % cap)).withCycleBit (lapBit cap m) = p.cell (m % cap) := by
        have hbit := h.bits _ (Nat.mod_lt m hcap)
        rw [hlength, bitAfter_succ hcap (Nat.mod_lt m hcap), if_pos rfl] at hbit
        rw [← hbit]
        rfl
      have hseg := h.seg
      refine ⟨⟨[.store _ _], rfl, ?_⟩, ?_, rfl⟩
      · rw [hslot, hstate, hseg, hsame]
        apply Obeys.single .same
        intro slot a hop hne
        injection hop with hslot' hcell
        rw [← hslot', ← hcell] at hne
        exact absurd rfl hne
      · have hring : x.setCycleBit.ring = x.ring := by
          unfold RingRun.setCycleBit RingRun.assign RingRun.store
          rw [hslot, hstate, hseg, hsame, Function.update_eq_self, ← hseg, ← hslot]
        rw [hring]
        exact h

end RingInv

/-! ## `XhcSyncTrsRing` -/

theorem harmless_clearFields : ∀ field ∈ RingRun.clearFields, Harmless field := by
  intro field hfield
  simp only [RingRun.clearFields, List.mem_cons, List.not_mem_nil, or_false] at hfield
  rcases hfield with rfl | rfl | rfl | rfl | rfl | rfl <;>
    first
    | exact ⟨fun _ => rfl, fun _ h => h⟩
    | exact ⟨fun _ => rfl, fun _ _ => (by decide : (0 : BitVec 6) ≠ trbTypeLink)⟩

theorem applyFields_clearFields (t : TrbTemplate) :
    applyFields RingRun.clearFields t = { cycleBit := t.cycleBit } := rfl

/-- Only `RingEnqueue` changes. -/
def RingRun.moveTo (slot : Nat) (x : RingRun) : RingRun :=
  { x with ring := { x.ring with ringEnqueue := slot } }

section Sync

variable {phyAddr : BitVec 64} {cap : Nat} {B : Nat → Nat → Prop} {x : RingRun}
  {p : Produced TrbTemplate} {synced : Bool}

/-- At the place of the next TRB the loop breaks. -/
theorem RingInv.syncBreaks_next (h : RingInv phyAddr cap x.ring p true) (hcap : 0 < cap) :
    x.syncBreaks x.ring.ringEnqueue = true := by
  unfold RingRun.syncBreaks
  rw [h.seg, h.slot_eq, h.state_eq, h.bit_next hcap]
  simp

/-- At the last TRB it does not. -/
theorem RingInv.syncBreaks_last (h : RingInv phyAddr cap x.ring p false) (hcap : 0 < cap) :
    x.syncBreaks x.ring.ringEnqueue = false := by
  have hseg := h.seg
  cases h.enqueue with
  | @last m hlength hslot hstate _ =>
      have hmod := Nat.mod_lt m hcap
      unfold RingRun.syncBreaks
      rw [hseg, hslot, h.bits _ hmod, hlength, bitAfter_succ hcap hmod, if_pos rfl, hstate]
      simp

/-- The link toggles the cycle state. -/
theorem RingInv.ent (h : RingInv phyAddr cap x.ring p synced) : (p.cell cap).ent = true := by
  have hlink := h.link
  simp only [trbFormat, if_pos h.linkType, Option.some.injEq, Prod.mk.injEq] at hlink
  exact hlink.2

/-- From the last TRB of a lap the loop goes on to the first TRB of the next lap, and turns
the link on its way. -/
theorem RingInv.syncTrb_end (h : RingInv phyAddr cap x.ring p false) (hcap : 0 < cap)
    (hb : B p.handed.length p.known) (hend : x.ring.ringEnqueue + 1 = cap) :
    x.syncTrb x.ring.ringEnqueue = some (x.turnLink cap, 0) ∧
      Advance phyAddr cap B x ((x.turnLink cap).moveTo 0) p
        { p with
          cell := Function.update p.cell cap ((p.cell cap).withCycleBit x.ring.ringPCS)
          closed := p.closed + 1 } true := by
  have hseg := h.seg
  have hnumber := h.number
  cases h.enqueue with
  | @last m hlength hslot hstate hclosed =>
      rw [hslot] at hend
      have hmod := Nat.mod_lt m hcap
      have hdiv : (m + 1) / cap = m / cap + 1 := by rw [succ_div hcap, if_pos hend]
      -- All entries of the lap have been handed over, so the link may be turned.
      have hfull : p.handed.length = (p.closed + 1) * cap := by
        have := Nat.div_add_mod m cap
        rw [hlength, hclosed, Nat.add_one_mul, Nat.mul_comm]
        omega
      have hturn : x.ring.ringPCS ≠ (p.cell cap).cycleBit := by
        rw [h.gate, hstate, hclosed, lapBit, Ne, decide_eq_decide]
        omega
      refine ⟨?_, ⟨[.store cap _], rfl, .single ?_ fun _ _ _ _ => hb⟩, ?_, rfl⟩
      · unfold RingRun.syncTrb
        rw [hslot, hseg, hend, if_pos h.linkType, if_pos h.ent]
      · rw [hseg]
        exact Allowed.closeLap hfull hturn h.link
      · exact
          { number := hnumber
            seg := by simp [RingRun.moveTo, RingRun.turnLink, RingRun.store, hseg]
            bits := by
              intro i hi
              have hne : i ≠ cap := by omega
              simp [hne, h.bits i hi]
            data := by
              intro i hi
              have hne : i ≠ cap := by omega
              simp [hne, h.data i hi]
            linkType := by simp [h.linkType]
            link := by
              simp only [Function.update_self]
              exact h.link
            gate := by
              simp only [Function.update_self, TrbTemplate.withCycleBit_cycleBit]
              rw [hstate, lapBit, decide_eq_decide, hclosed]
              omega
            enqueue := by
              refine .next ?_ ?_ ?_
              · show 0 = p.handed.length % cap
                rw [hfull, Nat.mul_mod_left]
              · show (!x.ring.ringPCS) = lapBit cap p.handed.length
                rw [hstate, hlength, lapBit_succ hcap, if_pos hend]
              · show p.closed + 1 = p.handed.length / cap
                rw [hclosed, hlength, hdiv] }

/-- Within a lap it goes on to the following TRB. -/
theorem RingInv.syncTrb_within (h : RingInv phyAddr cap x.ring p false) (hcap : 0 < cap)
    (hend : x.ring.ringEnqueue + 1 ≠ cap) :
    x.syncTrb x.ring.ringEnqueue = some (x, x.ring.ringEnqueue + 1) ∧
      Advance phyAddr cap B x (x.moveTo (x.ring.ringEnqueue + 1)) p p true := by
  have hseg := h.seg
  cases h.enqueue with
  | @last m hlength hslot hstate hclosed =>
      have hmod := Nat.mod_lt m hcap
      rw [hslot] at hend
      constructor
      · unfold RingRun.syncTrb
        rw [hslot, hseg, if_neg (h.data _ (by omega))]
      · refine ⟨⟨[], by simp [RingRun.moveTo], .nil p⟩, { h with enqueue := ?_ }, rfl⟩
        refine .next ?_ ?_ ?_
        · show x.ring.ringEnqueue + 1 = p.handed.length % cap
          rw [hslot, hlength, succ_mod hcap, if_neg hend]
        · show x.ring.ringPCS = lapBit cap p.handed.length
          rw [hstate, hlength, lapBit_succ hcap, if_neg hend]
        · rw [hclosed, hlength, succ_div hcap, if_neg hend]

/-- The loop finds the place of the next TRB in two iterations at most. -/
theorem RingInv.syncLoop (h : RingInv phyAddr cap x.ring p synced) (hcap : 0 < cap)
    (hb : B p.handed.length p.known) :
    ∃ y slot p', RingRun.syncLoop x.ring.trbNumber x x.ring.ringEnqueue = some (y, slot) ∧
      Advance phyAddr cap B x (y.moveTo slot) p p' true ∧ p'.handed = p.handed := by
  have htwo : x.ring.trbNumber = (cap - 1) + 1 + 1 := by
    rw [h.number]
    omega
  rw [htwo]
  -- The second iteration starts at the place of the next TRB.
  have hbreak : ∀ {y : RingRun} {slot : Nat} {q : Produced TrbTemplate},
      RingInv phyAddr cap (y.moveTo slot).ring q true → y.syncBreaks slot = true :=
    fun hinv => hinv.syncBreaks_next hcap
  cases synced with
  | true =>
      refine ⟨x, x.ring.ringEnqueue, p, ?_, Advance.refl h, rfl⟩
      rw [RingRun.syncLoop, if_pos (h.syncBreaks_next hcap)]
  | false =>
      have hlast : ¬x.syncBreaks x.ring.ringEnqueue = true := by simp [h.syncBreaks_last hcap]
      by_cases hend : x.ring.ringEnqueue + 1 = cap
      · obtain ⟨hsome, hadvance⟩ := h.syncTrb_end hcap hb hend
        refine ⟨_, 0, _, ?_, hadvance, rfl⟩
        rw [RingRun.syncLoop, if_neg hlast, hsome]
        simp only
        rw [RingRun.syncLoop, if_pos (hbreak hadvance.inv)]
      · obtain ⟨hsome, hadvance⟩ := h.syncTrb_within (B := B) hcap hend
        refine ⟨x, _, p, ?_, hadvance, rfl⟩
        rw [RingRun.syncLoop, if_neg hlast, hsome]
        simp only
        rw [RingRun.syncLoop, if_pos (hbreak hadvance.inv)]

/-- `XhcSyncTrsRing` never fails an assertion, hands nothing over, and leaves a cleared TRB
at the place of the next one. -/
theorem RingInv.xhcSyncTrsRing (h : RingInv phyAddr cap x.ring p synced) (hcap : 0 < cap)
    (hb : B p.handed.length p.known) :
    ∃ x' p', x.xhcSyncTrsRing = some x' ∧ Advance phyAddr cap B x x' p p' true ∧
      p'.handed = p.handed ∧
      p'.cell (p'.handed.length % cap) = { cycleBit := !lapBit cap p'.handed.length } := by
  obtain ⟨y, slot, q, hloop, hadvance, hhanded⟩ := h.syncLoop hcap hb
  have hb' : B q.handed.length q.known := by rwa [hhanded, hadvance.known]
  have hclear := hadvance.inv.assignAll hcap hb' harmless_clearFields
  refine ⟨_, _, ?_, hadvance.trans hclear, hhanded, ?_⟩
  · unfold RingRun.xhcSyncTrsRing
    rw [hloop]
    rfl
  · simp only [Function.update_self, applyFields_clearFields]
    rw [hadvance.inv.bit_next hcap]

end Sync

end XhciDxe
end EfiApps
