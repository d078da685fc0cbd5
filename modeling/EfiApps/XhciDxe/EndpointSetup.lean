import EfiApps.XhciDxe.SettingWalks

/-!
# Setting up endpoints

What the endpoints of a setting leave in the input context: a flag and a context for each, the
highest index, and the address of a ring for those that transfer data.  An interval that is out
of its range fails an assertion, and nothing else does.
-/

namespace EfiApps
namespace XhciDxe

open PciMisc (EfiStatus)

/-! ## Indices and intervals -/

namespace UsbEndpointDescriptor

variable (e : UsbEndpointDescriptor)

theorem epAddr_lt : e.epAddr < 16 := by
  unfold epAddr
  rw [BitVec.toNat_and]
  exact Nat.lt_succ_of_le Nat.and_le_right

theorem dci_lt : e.dci < 32 := by
  have haddr := e.epAddr_lt
  unfold dci xhcEndpointToDci
  split_ifs <;> omega

theorem dci_pos : 0 < e.dci := by
  unfold dci xhcEndpointToDci
  split_ifs <;> omega

/-- The interval is an exponent. -/
def HasExponent : Prop := 1 ≤ e.interval.toNat ∧ e.interval.toNat ≤ 16

/-- The interval is in the range for the type and the speed. -/
def IntervalOk (deviceSpeed : UsbSpeed) : Prop :=
  (e.isBulk = false → e.isIso = true → deviceSpeed ≠ .low → e.HasExponent) ∧
    (e.isBulk = false → e.isIso = false → e.isInterrupt = true →
      if deviceSpeed = .full ∨ deviceSpeed = .low then e.interval ≠ 0 else e.HasExponent)

end UsbEndpointDescriptor

section Context

variable (deviceSpeed : UsbSpeed) (e : UsbEndpointDescriptor) (c : EndpointContext)

theorem exponentInterval_ok (h : e.HasExponent) : exponentInterval e = .ok e.interval.toNat :=
  if_pos h

theorem exponentInterval_error (h : ¬ e.HasExponent) : exponentInterval e = .error .assertion :=
  if_neg h

theorem isoContext_ok (h : deviceSpeed ≠ .low → e.HasExponent) :
    ∃ c', isoContext deviceSpeed e c = .ok c' := by
  unfold isoContext
  cases deviceSpeed with
  | low => exact ⟨_, rfl⟩
  | full =>
      rw [exponentInterval_ok e (h (by decide))]
      exact ⟨_, rfl⟩
  | high =>
      rw [exponentInterval_ok e (h (by decide))]
      exact ⟨_, rfl⟩
  | super =>
      rw [exponentInterval_ok e (h (by decide))]
      exact ⟨_, rfl⟩

theorem isoContext_error (hspeed : deviceSpeed ≠ .low) (h : ¬ e.HasExponent) :
    isoContext deviceSpeed e c = .error .assertion := by
  unfold isoContext
  cases deviceSpeed with
  | low => exact absurd rfl hspeed
  | full =>
      rw [exponentInterval_error e h]
      rfl
  | high =>
      rw [exponentInterval_error e h]
      rfl
  | super =>
      rw [exponentInterval_error e h]
      rfl

/-- Apart from that, the context can be computed exactly if the interval is in its range. -/
theorem interruptContext_cases :
    (if deviceSpeed = .full ∨ deviceSpeed = .low then e.interval ≠ 0 else e.HasExponent) ∧
        (∃ c', interruptContext deviceSpeed e c = .ok c') ∨
      ¬ (if deviceSpeed = .full ∨ deviceSpeed = .low then e.interval ≠ 0 else e.HasExponent) ∧
        interruptContext deviceSpeed e c = .error .assertion := by
  have hzero : ∀ speed, (speed = .full ∨ speed = .low) →
      e.interval ≠ 0 ∧ (∃ c', interruptContext speed e c = .ok c') ∨
        ¬ e.interval ≠ 0 ∧ interruptContext speed e c = .error .assertion := by
    intro speed hspeed
    by_cases h : e.interval ≠ 0
    · refine .inl ⟨h, ?_⟩
      rcases hspeed with rfl | rfl
      · exact ⟨_, if_pos h⟩
      · exact ⟨_, if_pos h⟩
    · refine .inr ⟨h, ?_⟩
      rcases hspeed with rfl | rfl
      · exact if_neg h
      · exact if_neg h
  have hexponent : ∀ speed, (speed = .high ∨ speed = .super) →
      e.HasExponent ∧ (∃ c', interruptContext speed e c = .ok c') ∨
        ¬ e.HasExponent ∧ interruptContext speed e c = .error .assertion := by
    intro speed hspeed
    by_cases h : e.HasExponent
    · refine .inl ⟨h, ?_⟩
      unfold interruptContext
      rw [exponentInterval_ok e h]
      rcases hspeed with rfl | rfl
      · exact ⟨_, rfl⟩
      · exact ⟨_, rfl⟩
    · refine .inr ⟨h, ?_⟩
      unfold interruptContext
      rw [exponentInterval_error e h]
      rcases hspeed with rfl | rfl
      · rfl
      · rfl
  cases deviceSpeed with
  | full => exact hzero .full (.inl rfl)
  | low => exact hzero .low (.inr rfl)
  | high => exact hexponent .high (.inl rfl)
  | super => exact hexponent .super (.inr rfl)

theorem endpointContext_cases :
    e.IntervalOk deviceSpeed ∧ (∃ c', endpointContext deviceSpeed e c = .ok c') ∨
      ¬ e.IntervalOk deviceSpeed ∧ endpointContext deviceSpeed e c = .error .assertion := by
  unfold endpointContext
  cases hbulk : e.isBulk with
  | true =>
      refine .inl ⟨⟨?_, ?_⟩, _, rfl⟩
      · rw [hbulk]
        intro h
        cases h
      · rw [hbulk]
        intro h
        cases h
  | false =>
      cases hiso : e.isIso with
      | true =>
          have hiff : e.IntervalOk deviceSpeed ↔ (deviceSpeed ≠ .low → e.HasExponent) := by
            unfold UsbEndpointDescriptor.IntervalOk
            simp [hbulk, hiso]
          rw [hiff]
          by_cases h : deviceSpeed ≠ .low → e.HasExponent
          · exact .inl ⟨h, isoContext_ok deviceSpeed e _ h⟩
          · rw [Classical.not_imp] at h
            exact .inr ⟨fun hall => h.2 (hall h.1), isoContext_error deviceSpeed e _ h.1 h.2⟩
      | false =>
          cases hinterrupt : e.isInterrupt with
          | true =>
              have hiff : e.IntervalOk deviceSpeed ↔
                  if deviceSpeed = .full ∨ deviceSpeed = .low then e.interval ≠ 0
                  else e.HasExponent := by
                unfold UsbEndpointDescriptor.IntervalOk
                simp [hbulk, hiso, hinterrupt]
              rw [hiff]
              exact interruptContext_cases deviceSpeed e _
          | false =>
              refine .inl ⟨⟨?_, ?_⟩, _, rfl⟩
              · rw [hiso]
                intro _ h
                cases h
              · rw [hinterrupt]
                intro _ _ h
                cases h

end Context

/-! ## Rings -/

section Rings

variable {slotId dci k : Nat} {x : XhcSlots} {r : RingPtr}

/-- The ring of an endpoint. -/
def ringOf (slotId k : Nat) (x : XhcSlots) : Option RingPtr :=
  (x.usbDevContext slotId).endpointTransferRing.getD k none

theorem createEndpointRing_of_some (h : ringOf slotId (dci - 1) x = some r) :
    x.createEndpointRing slotId dci = x := by
  unfold ringOf at h
  unfold XhcSlots.createEndpointRing
  rw [h]

/-- The rings after a new one. -/
theorem rings_create (h : ringOf slotId (dci - 1) x = none) :
    ((x.createEndpointRing slotId dci).usbDevContext slotId).endpointTransferRing =
      (x.usbDevContext slotId).endpointTransferRing.set (dci - 1)
        (some ⟨x.nextAddress, x.nextAddress + 1⟩) := by
  unfold ringOf at h
  unfold XhcSlots.createEndpointRing
  rw [h]
  simp [XhcSlots.modify, XhcSlots.allocate]

theorem length_createEndpointRing :
    ((x.createEndpointRing slotId dci).usbDevContext slotId).endpointTransferRing.length =
      (x.usbDevContext slotId).endpointTransferRing.length := by
  cases h : ringOf slotId (dci - 1) x with
  | some r => rw [createEndpointRing_of_some h]
  | none => rw [rings_create h, List.length_set]

/-- Rings that exist are kept. -/
theorem ringOf_createEndpointRing (h : ringOf slotId k x = some r) :
    ringOf slotId k (x.createEndpointRing slotId dci) = some r := by
  cases hnone : ringOf slotId (dci - 1) x with
  | some r' => rwa [createEndpointRing_of_some hnone]
  | none =>
      have hne : dci - 1 ≠ k := by
        rintro rfl
        rw [hnone] at h
        cases h
      unfold ringOf at h ⊢
      rw [rings_create hnone, List.getD_eq_getElem?_getD, List.getElem?_set_ne hne,
        ← List.getD_eq_getElem?_getD]
      exact h

theorem ringOf_created (hk : dci - 1 < (x.usbDevContext slotId).endpointTransferRing.length) :
    ∃ r, ringOf slotId (dci - 1) (x.createEndpointRing slotId dci) = some r := by
  cases hnone : ringOf slotId (dci - 1) x with
  | some r =>
      rw [createEndpointRing_of_some hnone]
      exact ⟨r, hnone⟩
  | none =>
      refine ⟨⟨x.nextAddress, x.nextAddress + 1⟩, ?_⟩
      unfold ringOf
      rw [rings_create hnone, List.getD_eq_getElem?_getD, List.getElem?_set_self hk]
      rfl

/-- The rings for all these endpoints. -/
def createRings (slotId : Nat) (dcis : List Nat) (x : XhcSlots) : XhcSlots :=
  dcis.foldl (fun x dci => x.createEndpointRing slotId dci) x

theorem ringOf_createRings (dcis : List Nat) (h : ringOf slotId k x = some r) :
    ringOf slotId k (createRings slotId dcis x) = some r := by
  induction dcis generalizing x with
  | nil => exact h
  | cons dci dcis ih => exact ih (ringOf_createEndpointRing h)

end Rings

/-! ## All endpoints -/

section Setup

variable (ringPCS : Nat → Bool) (slotId : Nat) (deviceSpeed : UsbSpeed)

/-- The indices of the endpoints that get rings. -/
def ringDcis (es : List UsbEndpointDescriptor) : List Nat :=
  (es.filter UsbEndpointDescriptor.hasRing).map UsbEndpointDescriptor.dci

/-- A context, with the address of the ring if the endpoint has one. -/
def withRing (e : UsbEndpointDescriptor) (x : XhcSlots) (c : EndpointContext) : EndpointContext :=
  if e.hasRing then { c with ptr := ringPtr ringPCS slotId e.dci x } else c

/-- What the endpoints leave behind. -/
structure Initialized (es : List UsbEndpointDescriptor) (s t : EndpointsState) : Prop where
  maxDci : t.maxDci = es.foldl (fun m e => max m e.dci) s.maxDci
  dword1 : t.input.dword1 = s.input.dword1
  slot : t.input.slot = s.input.slot
  flags : ∀ k < 32, t.input.dword2.getLsbD k =
    (s.input.dword2.getLsbD k || es.any fun e => e.dci == k)
  slots : t.x = createRings slotId (ringDcis es) s.x
  others : ∀ k, (∀ e ∈ es, e.dci - 1 ≠ k) → t.input.ep k = s.input.ep k
  contexts : (es.map UsbEndpointDescriptor.dci).Nodup → ∀ e ∈ es,
    ∃ c, endpointContext deviceSpeed e (s.input.ep (e.dci - 1)) = .ok c ∧
      t.input.ep (e.dci - 1) = withRing ringPCS slotId e t.x c

variable {ringPCS slotId deviceSpeed} {e : UsbEndpointDescriptor}
  {es : List UsbEndpointDescriptor} {s t : EndpointsState}

theorem initialized_nil : Initialized ringPCS slotId deviceSpeed [] s s where
  maxDci := rfl
  dword1 := rfl
  slot := rfl
  flags _ _ := (Bool.or_false _).symm
  slots := rfl
  others _ _ := rfl
  contexts _ _ he := by cases he

/-- The state after one endpoint. -/
def afterEndpoint (ringPCS : Nat → Bool) (slotId : Nat) (e : UsbEndpointDescriptor)
    (c : EndpointContext) (s : EndpointsState) : EndpointsState where
  maxDci := max s.maxDci e.dci
  input := { s.input with
    dword2 := s.input.dword2 ||| 1#32 <<< e.dci
    ep := Function.update s.input.ep (e.dci - 1)
      (withRing ringPCS slotId e
        (if e.hasRing then s.x.createEndpointRing slotId e.dci else s.x) c) }
  x := if e.hasRing then s.x.createEndpointRing slotId e.dci else s.x

theorem initializeEndpoint_eq {c : EndpointContext}
    (hcontext : endpointContext deviceSpeed e (s.input.ep (e.dci - 1)) = .ok c) :
    initializeEndpoint ringPCS slotId deviceSpeed e s =
      .ok (afterEndpoint ringPCS slotId e c s) := by
  unfold initializeEndpoint
  rw [if_neg (by simpa using e.dci_lt), hcontext]
  rfl

theorem createRings_cons :
    createRings slotId (ringDcis (e :: es)) s.x = createRings slotId (ringDcis es)
      (if e.hasRing then s.x.createEndpointRing slotId e.dci else s.x) := by
  unfold ringDcis
  cases hring : e.hasRing with
  | true =>
      rw [List.filter_cons_of_pos hring]
      rfl
  | false =>
      rw [List.filter_cons_of_neg (by simp [hring])]
      rfl

/-- The flag of an endpoint. -/
theorem getLsbD_flag {n k : Nat} (hk : k < 32) (w : BitVec 32) :
    (w ||| 1#32 <<< n).getLsbD k = (w.getLsbD k || (n == k)) := by
  rw [BitVec.getLsbD_or, BitVec.getLsbD_shiftLeft]
  by_cases heq : n = k
  · subst heq
    simp [hk]
  · by_cases hlt : k < n
    · simp [hlt, heq]
    · have hpos : k - n ≠ 0 := by omega
      simp [heq, hpos, BitVec.getLsbD_one]

theorem Initialized.cons {c : EndpointContext}
    (hlength : 31 ≤ (s.x.usbDevContext slotId).endpointTransferRing.length)
    (hcontext : endpointContext deviceSpeed e (s.input.ep (e.dci - 1)) = .ok c)
    (h : Initialized ringPCS slotId deviceSpeed es (afterEndpoint ringPCS slotId e c s) t) :
    Initialized ringPCS slotId deviceSpeed (e :: es) s t where
  maxDci := h.maxDci
  dword1 := h.dword1
  slot := h.slot
  flags k hk := by
    rw [h.flags k hk, List.any_cons, ← Bool.or_assoc, ← getLsbD_flag hk]
    rfl
  slots := h.slots.trans createRings_cons.symm
  others k hk := by
    rw [h.others k fun e' he' => hk e' (List.mem_cons_of_mem _ he')]
    exact Function.update_of_ne (hk e List.mem_cons_self).symm _ _
  contexts hdistinct e' he' := by
    rw [List.map_cons, List.nodup_cons] at hdistinct
    obtain ⟨hnot, hdistinct⟩ := hdistinct
    have hother : ∀ e'' ∈ es, e''.dci - 1 ≠ e.dci - 1 := by
      intro e'' he'' heq
      have hpos := e.dci_pos
      have hpos' := e''.dci_pos
      exact hnot (List.mem_map.mpr ⟨e'', he'', by omega⟩)
    rcases List.mem_cons.mp he' with rfl | he'
    · refine ⟨c, hcontext, ?_⟩
      rw [h.others _ hother]
      refine (Function.update_self _ _ _).trans ?_
      -- Later endpoints leave the ring of this one as it is.
      unfold withRing
      split_ifs with hring
      · have hindex : e'.dci - 1 < (s.x.usbDevContext slotId).endpointTransferRing.length := by
          have hlt := e'.dci_lt
          omega
        obtain ⟨r, hr⟩ := ringOf_created hindex
        have hfinal := ringOf_createRings (ringDcis es) hr
        have hslots : t.x = createRings slotId (ringDcis es)
            (s.x.createEndpointRing slotId e'.dci) := by
          rw [h.slots]
          show createRings slotId (ringDcis es) (if e'.hasRing then _ else _) = _
          rw [if_pos hring]
        rw [← hslots] at hfinal
        have hptr : ringPtr ringPCS slotId e'.dci (s.x.createEndpointRing slotId e'.dci) =
            ringPtr ringPCS slotId e'.dci t.x := by
          show (ringOf slotId (e'.dci - 1) _).map _ = (ringOf slotId (e'.dci - 1) _).map _
          rw [hr, hfinal]
        rw [hptr]
      · rfl
    · obtain ⟨c', hcontext', hfinal⟩ := h.contexts hdistinct e' he'
      refine ⟨c', ?_, hfinal⟩
      have hsame : (afterEndpoint ringPCS slotId e c s).input.ep (e'.dci - 1) =
          s.input.ep (e'.dci - 1) := Function.update_of_ne (hother e' he') _ _
      rw [← hsame]
      exact hcontext'

/-- If all intervals are in their ranges, all endpoints are set up. -/
theorem initializeEndpoints_ok (ringPCS : Nat → Bool)
    (hlength : 31 ≤ (s.x.usbDevContext slotId).endpointTransferRing.length)
    (hintervals : ∀ e ∈ es, e.IntervalOk deviceSpeed) :
    ∃ t, initializeEndpoints ringPCS slotId deviceSpeed es s = .ok t ∧
      Initialized ringPCS slotId deviceSpeed es s t := by
  induction es generalizing s with
  | nil => exact ⟨s, rfl, initialized_nil⟩
  | cons e es ih =>
      have hok := hintervals e List.mem_cons_self
      have hcontext := (endpointContext_cases deviceSpeed e (s.input.ep (e.dci - 1))).resolve_right
        fun hnot => hnot.1 hok
      obtain ⟨c, hcontext⟩ := hcontext.2
      have hnext : 31 ≤ ((afterEndpoint ringPCS slotId e c s).x.usbDevContext
          slotId).endpointTransferRing.length := by
        show 31 ≤ ((if e.hasRing then _ else _ : XhcSlots).usbDevContext
          slotId).endpointTransferRing.length
        split_ifs
        · rw [length_createEndpointRing]
          exact hlength
        · exact hlength
      obtain ⟨t, hrun, hinit⟩ := ih hnext fun e' he' => hintervals e' (List.mem_cons_of_mem _ he')
      refine ⟨t, ?_, hinit.cons hlength hcontext⟩
      unfold initializeEndpoints at hrun ⊢
      rw [List.foldlM_cons, initializeEndpoint_eq hcontext]
      exact hrun

/-- If one is not, an assertion fails. -/
theorem initializeEndpoints_error (h : ∃ e ∈ es, ¬ e.IntervalOk deviceSpeed) :
    initializeEndpoints ringPCS slotId deviceSpeed es s = .error .assertion := by
  induction es generalizing s with
  | nil =>
      obtain ⟨_, hmem, _⟩ := h
      cases hmem
  | cons e es ih =>
      unfold initializeEndpoints at ih ⊢
      rw [List.foldlM_cons]
      rcases endpointContext_cases deviceSpeed e (s.input.ep (e.dci - 1)) with
        ⟨hok, c, hcontext⟩ | ⟨_, hcontext⟩
      · rw [initializeEndpoint_eq hcontext]
        obtain ⟨e', he', hnot⟩ := h
        rcases List.mem_cons.mp he' with rfl | he'
        · exact absurd hok hnot
        · exact ih ⟨e', he', hnot⟩
      · unfold initializeEndpoint
        rw [if_neg (by simpa using e.dci_lt), hcontext]
        rfl

end Setup

end XhciDxe
end EfiApps
