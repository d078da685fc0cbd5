import Mathlib.Logic.Relation
import EfiApps.Lib.CycleRing

/-!
# The event ring

The controller posts events on a ring, and `XhcCheckUrbResult` polls it.  A poll first looks
for the end of the events (`XhcSyncEventRing`), then handles them one by one
(`XhcCheckNewEvent`).  The scan starts at the dequeue pointer with the cycle state that the
last scan ended with, and a poll may leave before it has handled all events.

The controller may post an event at any time, also between two looks of the scan.  It keeps
one TRB free.
-/

namespace EfiApps
namespace XhciDxe

/-- `EVT_TRB_TRANSFER` and `EVT_TRB_COMMAND_COMPLETION`. -/
structure EvtTrb where
  trbPtrLo : BitVec 32 := 0
  trbPtrHi : BitVec 32 := 0
  length : BitVec 24 := 0
  completecode : BitVec 8 := 0
  cycleBit : Bool := false
  type : BitVec 6 := 0
  slotId : BitVec 8 := 0
  deriving DecidableEq, Repr, Inhabited

/-- `EVENT_RING`, without the segment table.  The TRBs are numbered from `EventRingSeg0`
on. -/
structure EventRing where
  eventRingSeg0 : Nat → EvtTrb
  trbNumber : Nat
  eventRingEnqueue : Nat
  eventRingDequeue : Nat
  eventRingCCS : Bool

/-- `CreateEventRing`, for so many TRBs. -/
def createEventRing (trbNumber : Nat) : EventRing where
  eventRingSeg0 _ := {}
  trbNumber := trbNumber
  eventRingEnqueue := 0
  eventRingDequeue := 0
  eventRingCCS := true

namespace EventRing

/-- One iteration of the loop of `XhcSyncEventRing` at `EvtTrb1`, or `none` where it
breaks. -/
def syncTrb (r : EventRing) (evtTrb1 : Nat) : Option (EventRing × Nat) :=
  if (r.eventRingSeg0 evtTrb1).cycleBit ≠ r.eventRingCCS then none
  else if evtTrb1 + 1 ≥ r.trbNumber then some ({ r with eventRingCCS := !r.eventRingCCS }, 0)
  else some (r, evtTrb1 + 1)

/-- `XhcCheckNewEvent`: the event, or `none` for `EFI_NOT_READY`. -/
def xhcCheckNewEvent (r : EventRing) : Option EvtTrb × EventRing :=
  let newEvtTrb := r.eventRingSeg0 r.eventRingDequeue
  if r.eventRingDequeue = r.eventRingEnqueue then (none, r)
  else
    let dequeue := r.eventRingDequeue + 1
    (some newEvtTrb,
      { r with eventRingDequeue := if dequeue ≥ r.trbNumber then 0 else dequeue })

end EventRing

/-! ## Polls and posts -/

/-- Where the driver is: between polls, in the loop of `XhcSyncEventRing` with `Index` and
`EvtTrb1`, in the loop of `XhcCheckUrbResult` with its `Index`, or at a failed assertion. -/
inductive PollPhase
  | idle
  | scan (index evtTrb1 : Nat)
  | handle (index : Nat)
  | failed
  deriving DecidableEq, Repr

/-- The ring, what the controller has posted and the driver has handled, and how much had
been posted when the last poll began. -/
structure EventSystem where
  ring : EventRing
  phase : PollPhase
  posted : List EvtTrb
  handled : List EvtTrb
  before : Nat

/-- One step: the controller posts an event, or the driver takes a step of a poll. -/
inductive EventStep : EventSystem → EventSystem → Prop
  | post {s : EventSystem} (e : EvtTrb)
      (hbit : e.cycleBit = lapBit s.ring.trbNumber s.posted.length)
      (hroom : s.posted.length + 1 < s.handled.length + s.ring.trbNumber) :
      EventStep s
        { s with
          ring := { s.ring with
            eventRingSeg0 := Function.update s.ring.eventRingSeg0
              (s.posted.length % s.ring.trbNumber) e }
          posted := s.posted ++ [e] }
  | poll {s : EventSystem} (hphase : s.phase = .idle) :
      EventStep s
        { s with phase := .scan 0 s.ring.eventRingDequeue, before := s.posted.length }
  | scanOn {s : EventSystem} {index evtTrb1 evtTrb1' : Nat} {r : EventRing}
      (hphase : s.phase = .scan index evtTrb1) (hindex : index < s.ring.trbNumber)
      (hsync : s.ring.syncTrb evtTrb1 = some (r, evtTrb1')) :
      EventStep s { s with ring := r, phase := .scan (index + 1) evtTrb1' }
  | scanStop {s : EventSystem} {index evtTrb1 : Nat} (hphase : s.phase = .scan index evtTrb1)
      (hindex : index < s.ring.trbNumber) (hsync : s.ring.syncTrb evtTrb1 = none) :
      EventStep s
        { s with ring := { s.ring with eventRingEnqueue := evtTrb1 }, phase := .handle 0 }
  | scanFail {s : EventSystem} {index evtTrb1 : Nat} (hphase : s.phase = .scan index evtTrb1)
      (hindex : ¬index < s.ring.trbNumber) : EventStep s { s with phase := .failed }
  /-- The body of the loop goes on to the next iteration. -/
  | handle {s : EventSystem} {index : Nat} {e : EvtTrb} {r : EventRing}
      (hphase : s.phase = .handle index) (hindex : index < s.ring.trbNumber)
      (hevent : s.ring.xhcCheckNewEvent = (some e, r)) :
      EventStep s
        { s with ring := r, phase := .handle (index + 1), handled := s.handled ++ [e] }
  /-- The body of the loop leaves at once, as it does after an error. -/
  | leave {s : EventSystem} {index : Nat} {e : EvtTrb} {r : EventRing}
      (hphase : s.phase = .handle index) (hindex : index < s.ring.trbNumber)
      (hevent : s.ring.xhcCheckNewEvent = (some e, r)) :
      EventStep s { s with ring := r, phase := .idle, handled := s.handled ++ [e] }
  | drained {s : EventSystem} {index : Nat} {r : EventRing} (hphase : s.phase = .handle index)
      (hindex : index < s.ring.trbNumber) (hevent : s.ring.xhcCheckNewEvent = (none, r)) :
      EventStep s { s with ring := r, phase := .idle }
  | handleEnd {s : EventSystem} {index : Nat} (hphase : s.phase = .handle index)
      (hindex : ¬index < s.ring.trbNumber) : EventStep s { s with phase := .idle }

/-- A new ring. -/
def EventSystem.start (trbNumber : Nat) : EventSystem where
  ring := createEventRing trbNumber
  phase := .idle
  posted := []
  handled := []
  before := 0

/-- The runs. -/
abbrev EventRun : EventSystem → EventSystem → Prop := Relation.ReflTransGen EventStep

/-- The driver expects the cycle state of the event that it handles next. -/
def EventSystem.Aligned (s : EventSystem) : Prop :=
  s.ring.eventRingCCS = lapBit s.ring.trbNumber s.handled.length

/-! ## The invariant -/

/-- A scan has left the enqueue pointer and the cycle state at the place of event `e`, of
those posted before which none is missed. -/
def ScannedTo (r : EventRing) (handled posted before : Nat) : Prop :=
  ∃ e, handled ≤ e ∧ e ≤ posted ∧ before ≤ e ∧ r.eventRingEnqueue = e % r.trbNumber ∧
    r.eventRingCCS = lapBit r.trbNumber e

/-- What a scan has left; or the driver is stuck at an event that it takes for an old
one. -/
def Cursor (r : EventRing) (handled posted before : Nat) : Prop :=
  ScannedTo r handled posted before ∨
    handled < posted ∧ r.eventRingEnqueue = handled % r.trbNumber ∧
      r.eventRingCCS = !lapBit r.trbNumber handled

/-- Where a scan is: at event `handled + index`, or stuck at its start. -/
def Scan (r : EventRing) (handled posted before index evtTrb1 : Nat) : Prop :=
  evtTrb1 = (handled + index) % r.trbNumber ∧ before ≤ posted ∧
    (handled + index ≤ posted ∧ r.eventRingCCS = lapBit r.trbNumber (handled + index) ∨
      index = 0 ∧ handled < posted ∧ r.eventRingCCS = !lapBit r.trbNumber handled)

/-- What holds in every state of a run. -/
structure EventInv (cap : Nat) (s : EventSystem) : Prop where
  number : s.ring.trbNumber = cap
  outstanding : Outstanding EvtTrb.cycleBit cap s.posted s.handled.length s.ring.eventRingSeg0
  free : s.posted.length < s.handled.length + cap
  dequeue : s.ring.eventRingDequeue = s.handled.length % cap
  inOrder : s.handled <+: s.posted
  phase : match s.phase with
    | .idle => s.ring.eventRingCCS = lapBit cap s.handled.length ∨
        s.handled.length < s.posted.length
    | .scan index evtTrb1 =>
        Scan s.ring s.handled.length s.posted.length s.before index evtTrb1
    | .handle _ => Cursor s.ring s.handled.length s.posted.length s.before
    | .failed => False

section Step

variable {cap : Nat} {s s' : EventSystem}

theorem lapBit_eq_or (a b : Bool) : a = b ∨ a = !b := by
  cases a <;> cases b <;> simp

theorem eventInv_start (hcap : 0 < cap) : EventInv cap (.start cap) where
  number := rfl
  outstanding := Outstanding.empty fun _ _ => rfl
  free := by simpa [EventSystem.start] using hcap
  dequeue := by simp [EventSystem.start, createEventRing]
  inOrder := List.nil_prefix
  phase := Or.inl (by simp [EventSystem.start, createEventRing, lapBit])

/-- What a look of the scan finds. -/
theorem EventInv.syncTrb (h : EventInv cap s) (hcap : 0 < cap) {a : Nat}
    (hle : s.handled.length ≤ a) (hposted : a ≤ s.posted.length)
    (hstate : s.ring.eventRingCCS = lapBit cap a) :
    s.ring.syncTrb (a % cap) =
      if a < s.posted.length then
        some ({ s.ring with eventRingCCS := lapBit cap (a + 1) }, (a + 1) % cap)
      else none := by
  obtain rfl := h.number
  have hmod := Nat.mod_lt a hcap
  have hfree := h.free
  have hseen := bitAfter_eq_lapBit_iff hcap hposted (by omega)
  unfold EventRing.syncTrb
  rw [h.outstanding.bits _ hmod, hstate, succ_mod hcap, lapBit_succ hcap]
  by_cases hmore : a < s.posted.length
  · rw [if_neg (not_not.mpr (hseen.mpr hmore)), if_pos hmore]
    by_cases hend : a % s.ring.trbNumber + 1 = s.ring.trbNumber
    · rw [if_pos (by omega), if_pos hend, if_pos hend]
    · rw [if_neg (by omega), if_neg hend, if_neg hend, ← hstate]
  · rw [if_pos (mt hseen.mp hmore), if_neg hmore]

/-- A stuck scan sees nothing. -/
theorem EventInv.syncTrb_stuck (h : EventInv cap s) (hcap : 0 < cap)
    (hposted : s.handled.length < s.posted.length)
    (hstate : s.ring.eventRingCCS = !lapBit cap s.handled.length) :
    s.ring.syncTrb (s.handled.length % cap) = none := by
  have hseen := (h.outstanding.ready_iff hcap).mpr hposted
  unfold EventRing.syncTrb
  rw [hseen, hstate, if_pos]
  simp

/-- The event that is handled next is the next one that was posted. -/
theorem EventInv.checkNewEvent (h : EventInv cap s) (hcap : 0 < cap) {before : Nat}
    (hcursor : Cursor s.ring s.handled.length s.posted.length before) {e : EvtTrb}
    {r : EventRing} (hevent : s.ring.xhcCheckNewEvent = (some e, r)) :
    r = { s.ring with eventRingDequeue := (s.handled.length + 1) % cap } ∧
      (∃ hlt : s.handled.length < s.posted.length, s.posted[s.handled.length] = e) ∧
      ScannedTo r (s.handled.length + 1) s.posted.length before := by
  obtain rfl := h.number
  have hmod := Nat.mod_lt s.handled.length hcap
  have hnext : (if s.ring.eventRingDequeue + 1 ≥ s.ring.trbNumber then 0
      else s.ring.eventRingDequeue + 1) = (s.handled.length + 1) % s.ring.trbNumber := by
    rw [h.dequeue, succ_mod hcap]
    split_ifs <;> omega
  unfold EventRing.xhcCheckNewEvent at hevent
  by_cases hempty : s.ring.eventRingDequeue = s.ring.eventRingEnqueue
  · simp [hempty] at hevent
  · simp only [if_neg hempty, hnext, Prod.mk.injEq, Option.some.injEq] at hevent
    obtain ⟨hsome, rfl⟩ := hevent
    rcases hcursor with ⟨c, hle, hposted, hbefore, henqueue, hstate⟩ | ⟨_, henqueue, _⟩
    · have hne : s.handled.length ≠ c := by
        intro heq
        exact hempty (by rw [h.dequeue, henqueue, heq])
      have hless : s.handled.length < s.posted.length := by omega
      refine ⟨rfl, ⟨hless, ?_⟩, c, by omega, hposted, hbefore, henqueue, hstate⟩
      rw [← h.outstanding.kept _ hless (Nat.le_refl _), ← h.dequeue]
      exact hsome
    · rw [← h.dequeue] at henqueue
      exact absurd henqueue.symm hempty

theorem Cursor.post {r r' : EventRing} {handled posted before : Nat}
    (h : Cursor r handled posted before) (hnumber : r'.trbNumber = r.trbNumber)
    (henqueue : r'.eventRingEnqueue = r.eventRingEnqueue)
    (hstate : r'.eventRingCCS = r.eventRingCCS) : Cursor r' handled (posted + 1) before := by
  unfold Cursor ScannedTo
  rw [hnumber, henqueue, hstate]
  rcases h with ⟨e, hle, hposted, hrest⟩ | ⟨hposted, hrest⟩
  · exact Or.inl ⟨e, hle, by omega, hrest⟩
  · exact Or.inr ⟨by omega, hrest⟩

theorem Scan.post {r r' : EventRing} {handled posted before index evtTrb1 : Nat}
    (h : Scan r handled posted before index evtTrb1) (hnumber : r'.trbNumber = r.trbNumber)
    (hstate : r'.eventRingCCS = r.eventRingCCS) :
    Scan r' handled (posted + 1) before index evtTrb1 := by
  unfold Scan
  rw [hnumber, hstate]
  obtain ⟨hslot, hbefore, hplace⟩ := h
  refine ⟨hslot, by omega, ?_⟩
  rcases hplace with ⟨hposted, hcCS⟩ | ⟨hindex, hposted, hcCS⟩
  · exact Or.inl ⟨by omega, hcCS⟩
  · exact Or.inr ⟨hindex, by omega, hcCS⟩

/-- The controller posts an event. -/
theorem EventInv.post (h : EventInv cap s) (hcap : 0 < cap) {e : EvtTrb}
    (hbit : e.cycleBit = lapBit s.ring.trbNumber s.posted.length)
    (hroom : s.posted.length + 1 < s.handled.length + s.ring.trbNumber) :
    EventInv cap
      { s with
        ring := { s.ring with
          eventRingSeg0 := Function.update s.ring.eventRingSeg0
            (s.posted.length % s.ring.trbNumber) e }
        posted := s.posted ++ [e] } := by
  obtain rfl := h.number
  have hlength : (s.posted ++ [e]).length = s.posted.length + 1 := by simp
  have hphase := h.phase
  exact
    { number := rfl
      outstanding := h.outstanding.handOver hcap h.free hbit
      free := by
        rw [hlength]
        exact hroom
      dequeue := h.dequeue
      inOrder := h.inOrder.trans (List.prefix_append _ _)
      phase := by
        rw [hlength]
        cases hcase : s.phase with
        | idle =>
            rw [hcase] at hphase
            exact hphase.imp id fun hlt => Nat.lt_succ_of_lt hlt
        | scan index evtTrb1 =>
            rw [hcase] at hphase
            exact hphase.post rfl rfl
        | handle index =>
            rw [hcase] at hphase
            exact hphase.post rfl rfl rfl
        | failed =>
            rw [hcase] at hphase
            exact hphase }

/-- The driver handles an event, and goes on to `phase`. -/
theorem EventInv.handled (h : EventInv cap s) (hcap : 0 < cap) {index : Nat}
    (hphase : s.phase = .handle index) {e : EvtTrb} {r : EventRing}
    (hevent : s.ring.xhcCheckNewEvent = (some e, r)) {phase : PollPhase}
    (hnext : phase = .idle ∨ ∃ index', phase = .handle index') :
    EventInv cap { s with ring := r, phase := phase, handled := s.handled ++ [e] } := by
  obtain rfl := h.number
  have hcursor := h.phase
  rw [hphase] at hcursor
  obtain ⟨rfl, ⟨hlt, hentry⟩, hcursor'⟩ := h.checkNewEvent hcap hcursor hevent
  have hlength : (s.handled ++ [e]).length = s.handled.length + 1 := by simp
  have hfree := h.free
  exact
    { number := rfl
      outstanding := by
        rw [hlength]
        exact h.outstanding.take hlt
      free := by
        rw [hlength]
        show s.posted.length < s.handled.length + 1 + s.ring.trbNumber
        omega
      dequeue := by rw [hlength]
      inOrder := by
        apply isPrefix_concat h.inOrder
        rw [List.getElem?_eq_getElem hlt, hentry]
      phase := by
        rw [hlength]
        rcases hnext with rfl | ⟨index', rfl⟩
        · obtain ⟨c, hle, hposted, _, _, hstate⟩ := hcursor'
          rcases Nat.eq_or_lt_of_le hle with rfl | hmore
          · exact Or.inl hstate
          · exact Or.inr (Nat.lt_of_lt_of_le hmore hposted)
        · exact Or.inl hcursor' }

/-- Where a poll finds no more events, the driver has come to the end of its scan, or it is
stuck. -/
theorem EventInv.drained (h : EventInv cap s) (hcap : 0 < cap) {index : Nat}
    (hphase : s.phase = .handle index) {r : EventRing}
    (hevent : s.ring.xhcCheckNewEvent = (none, r)) :
    r = s.ring ∧ (s.Aligned ∧ s.before ≤ s.handled.length ∨
      ¬s.Aligned ∧ s.handled.length < s.posted.length) := by
  obtain rfl := h.number
  have hcursor := h.phase
  have hfree := h.free
  rw [hphase] at hcursor
  unfold EventRing.xhcCheckNewEvent at hevent
  by_cases hempty : s.ring.eventRingDequeue = s.ring.eventRingEnqueue
  · simp only [if_pos hempty, Prod.mk.injEq, true_and] at hevent
    refine ⟨hevent.symm, ?_⟩
    rcases hcursor with ⟨c, hle, hposted, hbefore, henqueue, hstate⟩ | ⟨hposted, _, hstate⟩
    · have hsame : s.handled.length = c := by
        rcases Nat.eq_or_lt_of_le hle with heq | hlt
        · exact heq
        · exfalso
          apply mod_ne_of_lt hcap hlt (by omega)
          rw [← h.dequeue, ← henqueue, hempty]
      rw [← hsame] at hstate hbefore
      exact Or.inl ⟨hstate, hbefore⟩
    · refine Or.inr ⟨?_, hposted⟩
      unfold EventSystem.Aligned
      rw [hstate]
      simp
  · simp [hempty] at hevent

/-- One step of a run keeps the invariant. -/
theorem EventInv.step (h : EventInv cap s) (hcap : 0 < cap) (hstep : EventStep s s') :
    EventInv cap s' := by
  have hphaseInv := h.phase
  cases hstep with
  | post e hbit hroom => exact h.post hcap hbit hroom
  | poll hphase =>
      rw [hphase] at hphaseInv
      obtain rfl := h.number
      refine { h with phase := ⟨h.dequeue, Nat.le_refl _, ?_⟩ }
      -- `EventRingCCS` is the state of the lap that the driver is in, or of the next one.
      rcases lapBit_eq_or s.ring.eventRingCCS (lapBit s.ring.trbNumber s.handled.length) with
        hstate | hstate
      · exact Or.inl ⟨h.outstanding.le, hstate⟩
      · refine Or.inr ⟨rfl, ?_, hstate⟩
        rcases hphaseInv with haligned | hlt
        · rw [haligned] at hstate
          simp at hstate
        · exact hlt
  | scanOn hphase _ hsync =>
      rw [hphase] at hphaseInv
      obtain rfl := h.number
      obtain ⟨rfl, hbefore, ⟨hposted, hstate⟩ | ⟨rfl, hposted, hstate⟩⟩ := hphaseInv
      · rw [h.syncTrb hcap (Nat.le_add_right _ _) hposted hstate] at hsync
        split_ifs at hsync with hmore
        simp only [Option.some.injEq, Prod.mk.injEq] at hsync
        obtain ⟨rfl, rfl⟩ := hsync
        exact { h with phase := ⟨rfl, hbefore, Or.inl ⟨hmore, rfl⟩⟩ }
      · rw [Nat.add_zero, h.syncTrb_stuck hcap hposted hstate] at hsync
        exact absurd hsync (by simp)
  | @scanStop index _ hphase _ hsync =>
      rw [hphase] at hphaseInv
      obtain rfl := h.number
      obtain ⟨rfl, hbefore, ⟨hposted, hstate⟩ | ⟨rfl, hposted, hstate⟩⟩ := hphaseInv
      · rw [h.syncTrb hcap (Nat.le_add_right _ _) hposted hstate] at hsync
        split_ifs at hsync with hmore
        have hend : s.before ≤ s.handled.length + index := by omega
        exact
          { h with
            phase := Or.inl ⟨_, Nat.le_add_right _ _, hposted, hend, rfl, hstate⟩ }
      · exact { h with phase := Or.inr ⟨hposted, rfl, hstate⟩ }
  | scanFail hphase hindex =>
      rw [hphase] at hphaseInv
      obtain rfl := h.number
      have hfree := h.free
      obtain ⟨_, _, ⟨hposted, _⟩ | ⟨rfl, _, _⟩⟩ := hphaseInv
      · exact absurd hfree (by omega)
      · exact absurd hcap hindex
  | handle hphase _ hevent => exact h.handled hcap hphase hevent (Or.inr ⟨_, rfl⟩)
  | leave hphase _ hevent => exact h.handled hcap hphase hevent (Or.inl rfl)
  | drained hphase _ hevent =>
      obtain ⟨rfl, hcase⟩ := h.drained hcap hphase hevent
      obtain rfl := h.number
      exact { h with phase := hcase.imp (fun hcase => hcase.1) fun hcase => hcase.2 }
  | handleEnd hphase _ =>
      rw [hphase] at hphaseInv
      obtain rfl := h.number
      refine { h with phase := ?_ }
      rcases hphaseInv with ⟨c, hle, hposted, _, _, hstate⟩ | ⟨hposted, _⟩
      · rcases Nat.eq_or_lt_of_le hle with rfl | hmore
        · exact Or.inl hstate
        · exact Or.inr (Nat.lt_of_lt_of_le hmore hposted)
      · exact Or.inr hposted

/-- A run keeps the invariant. -/
theorem EventInv.run (h : EventInv cap s) (hcap : 0 < cap) (hrun : EventRun s s') :
    EventInv cap s' := by
  induction hrun with
  | refl => exact h
  | tail _ hstep ih => exact ih.step hcap hstep

theorem eventInv_run (hcap : 0 < cap) (hrun : EventRun (.start cap) s) : EventInv cap s :=
  (eventInv_start hcap).run hcap hrun

/-- In every run no scan fails, and the driver handles the events that the controller has
posted, in their order, each once. -/
theorem events_in_order (hcap : 0 < cap) (hrun : EventRun (.start cap) s) :
    s.phase ≠ .failed ∧ s.handled <+: s.posted := by
  have hinv := eventInv_run hcap hrun
  refine ⟨fun hfailed => ?_, hinv.inOrder⟩
  have hphase := hinv.phase
  rw [hfailed] at hphase
  exact hphase

/-- Of two events the first has been handled and the second posted meanwhile. -/
theorem events_in_order_post :
    ∃ s, EventRun (.start 3) s ∧ s.handled.length = 1 ∧ s.posted.length = 2 ∧
      s.phase ≠ .failed ∧ s.handled <+: s.posted := by
  have hrun : EventRun (.start 3) _ :=
    (((((Relation.ReflTransGen.single (.post { cycleBit := true } rfl (by decide))).tail
      (.poll rfl)).tail (.scanOn rfl (by decide) rfl)).tail
      (.scanStop rfl (by decide) rfl)).tail
      (.post { cycleBit := true, slotId := 1 } rfl (by decide))).tail
      (.handle rfl (by decide) rfl)
  exact ⟨_, hrun, rfl, rfl, events_in_order (by decide) hrun⟩

/-- Where a poll finds no more events in a run whose driver is aligned, it has handled all
events that had been posted when the poll began. -/
theorem drained_poll_sees_all (hcap : 0 < cap) (hrun : EventRun (.start cap) s) {index : Nat}
    (hphase : s.phase = .handle index) {r : EventRing}
    (hevent : s.ring.xhcCheckNewEvent = (none, r)) (haligned : s.Aligned) :
    s.posted.take s.before <+: s.handled := by
  have hinv := eventInv_run hcap hrun
  obtain ⟨_, hcase⟩ := hinv.drained hcap hphase hevent
  rcases hcase with ⟨_, hbefore⟩ | ⟨hstuck, _⟩
  · apply List.prefix_of_prefix_length_le (List.take_prefix _ _) hinv.inOrder
    rw [List.length_take]
    omega
  · exact absurd haligned hstuck

/-- A poll that is over has handled the event posted before it. -/
theorem drained_poll_sees_all_one :
    ∃ s, EventRun (.start 3) s ∧ s.before = 1 ∧ s.posted.take s.before <+: s.handled := by
  have hrun : EventRun (.start 3) _ :=
    ((((Relation.ReflTransGen.single (.post { cycleBit := true } rfl (by decide))).tail
      (.poll rfl)).tail (.scanOn rfl (by decide) rfl)).tail
      (.scanStop rfl (by decide) rfl)).tail (.handle rfl (by decide) rfl)
  exact ⟨_, hrun, rfl, drained_poll_sees_all (by decide) hrun rfl rfl rfl⟩

/-! ## Polls that leave early -/

/-- The driver takes the next event for an old one.  It neither sees this event nor goes
past it. -/
structure Stuck (s : EventSystem) : Prop where
  waiting : s.handled.length < s.posted.length
  state : s.ring.eventRingCCS = !lapBit s.ring.trbNumber s.handled.length
  phase : s.phase = .idle ∨ s.phase = .scan 0 s.ring.eventRingDequeue ∨
    ∃ index, s.phase = .handle index ∧ s.ring.eventRingEnqueue = s.ring.eventRingDequeue

/-- A stuck driver has nothing to handle. -/
theorem Stuck.checkNewEvent (h : Stuck s) {index : Nat} (hphase : s.phase = .handle index) :
    s.ring.xhcCheckNewEvent = (none, s.ring) := by
  unfold EventRing.xhcCheckNewEvent
  rcases h.phase with hidle | hscan | ⟨_, _, henqueue⟩
  · rw [hphase] at hidle
    cases hidle
  · rw [hphase] at hscan
    cases hscan
  · rw [if_pos henqueue.symm]

/-- No step frees a stuck driver, and none handles an event. -/
theorem Stuck.step (h : Stuck s) (hinv : EventInv cap s) (hcap : 0 < cap)
    (hstep : EventStep s s') : Stuck s' ∧ s'.handled = s.handled := by
  obtain rfl := hinv.number
  cases hstep with
  | post e _ _ =>
      have hlength : s.handled.length < (s.posted ++ [e]).length := by
        rw [List.length_append]
        exact Nat.lt_add_right _ h.waiting
      exact ⟨⟨hlength, h.state, h.phase⟩, rfl⟩
  | poll _ => exact ⟨⟨h.waiting, h.state, Or.inr (Or.inl rfl)⟩, rfl⟩
  | @scanOn index evtTrb1 _ r hphase _ hsync =>
      have hslot : evtTrb1 = s.handled.length % s.ring.trbNumber := by
        rcases h.phase with hidle | hscan | ⟨_, hhandle, _⟩
        · rw [hphase] at hidle
          cases hidle
        · rw [hphase, hinv.dequeue] at hscan
          cases hscan
          rfl
        · rw [hphase] at hhandle
          cases hhandle
      -- The event at the dequeue pointer has the other cycle bit, so the scan stops at once.
      rw [hslot, hinv.syncTrb_stuck hcap h.waiting h.state] at hsync
      cases hsync
  | scanStop hphase _ _ =>
      refine ⟨⟨h.waiting, h.state, Or.inr (Or.inr ⟨0, rfl, ?_⟩)⟩, rfl⟩
      rcases h.phase with hidle | hscan | ⟨_, hhandle, _⟩
      · rw [hphase] at hidle
        cases hidle
      · rw [hphase] at hscan
        cases hscan
        rfl
      · rw [hphase] at hhandle
        cases hhandle
  | scanFail hphase hindex =>
      rcases h.phase with hidle | hscan | ⟨_, hhandle, _⟩
      · rw [hphase] at hidle
        cases hidle
      · rw [hphase] at hscan
        cases hscan
        exact absurd hcap hindex
      · rw [hphase] at hhandle
        cases hhandle
  | handle hphase _ hevent =>
      rw [h.checkNewEvent hphase] at hevent
      cases hevent
  | leave hphase _ hevent =>
      rw [h.checkNewEvent hphase] at hevent
      cases hevent
  | drained hphase _ hevent =>
      rw [h.checkNewEvent hphase] at hevent
      cases hevent
      exact ⟨⟨h.waiting, h.state, Or.inl rfl⟩, rfl⟩
  | handleEnd _ _ => exact ⟨⟨h.waiting, h.state, Or.inl rfl⟩, rfl⟩

/-- A stuck driver stays stuck. -/
theorem Stuck.run (h : Stuck s) (hinv : EventInv cap s) (hcap : 0 < cap)
    (hrun : EventRun s s') : s'.handled = s.handled := by
  have hboth : Stuck s' ∧ s'.handled = s.handled := by
    induction hrun with
    | refl => exact ⟨h, rfl⟩
    | tail hbefore hstep ih =>
        obtain ⟨hstuck, hsame⟩ := ih
        obtain ⟨hnext, hkept⟩ := hstuck.step (hinv.run hcap hbefore) hcap hstep
        exact ⟨hnext, hkept.trans hsame⟩
  exact hboth.2

/-- A scan that is not disturbed comes to the end of the events. -/
theorem EventInv.scan_ends (h : EventInv cap s) (hcap : 0 < cap) {index : Nat}
    (hphase : s.phase = .scan index ((s.handled.length + index) % cap))
    (hposted : s.handled.length + index ≤ s.posted.length)
    (hstate : s.ring.eventRingCCS = lapBit cap (s.handled.length + index)) :
    ∃ s', EventRun s s' ∧ s'.phase = .handle 0 ∧ s'.posted = s.posted ∧
      s'.handled = s.handled ∧ s'.ring.eventRingEnqueue = s.posted.length % cap ∧
      s'.ring.eventRingCCS = lapBit cap s.posted.length := by
  -- By induction on the number of events that the scan has still to see.
  obtain ⟨left, hleft⟩ := Nat.exists_eq_add_of_le hposted
  induction left generalizing s index with
  | zero =>
      have hindex : index < s.ring.trbNumber := by
        have hfree := h.free
        have hnumber := h.number
        omega
      have hstop := h.syncTrb hcap (Nat.le_add_right _ index) hposted hstate
      rw [if_neg (by omega)] at hstop
      refine ⟨_, Relation.ReflTransGen.single (.scanStop hphase hindex hstop), rfl, rfl, rfl, ?_⟩
      rw [hleft]
      exact ⟨rfl, hstate⟩
  | succ left ih =>
      have hindex : index < s.ring.trbNumber := by
        have hfree := h.free
        have hnumber := h.number
        omega
      have hon := h.syncTrb hcap (Nat.le_add_right _ index) hposted hstate
      rw [if_pos (by omega)] at hon
      have hstep := EventStep.scanOn hphase hindex hon
      obtain ⟨s', hrun, hrest⟩ := ih (h.step hcap hstep) rfl (by simp only; omega) rfl
        (by simp only; omega)
      exact ⟨s', hrun.head hstep, hrest⟩

/-- A poll that is not disturbed handles the events up to the end of its scan. -/
theorem EventInv.handle_ends (h : EventInv cap s) (hcap : 0 < cap) {index : Nat}
    (hphase : s.phase = .handle index)
    (henqueue : s.ring.eventRingEnqueue = s.posted.length % cap)
    (hindex : s.posted.length + index < s.handled.length + cap) :
    ∃ s', EventRun s s' ∧ s'.phase = .idle ∧ s'.posted = s.posted ∧ s'.handled = s.posted ∧
      s'.ring.eventRingCCS = s.ring.eventRingCCS := by
  have hless : index < cap := by
    have hlength := h.inOrder.length_le
    omega
  -- By induction on the number of events that are left.
  obtain ⟨left, hleft⟩ := Nat.exists_eq_add_of_le h.inOrder.length_le
  induction left generalizing s index with
  | zero =>
      have hall : s.handled = s.posted := h.inOrder.eq_of_length hleft.symm
      have hnone : s.ring.xhcCheckNewEvent = (none, s.ring) := by
        unfold EventRing.xhcCheckNewEvent
        rw [if_pos]
        rw [h.dequeue, henqueue, hall]
      exact ⟨_, Relation.ReflTransGen.single
        (.drained hphase (h.number.symm ▸ hless) hnone), rfl, rfl, hall, rfl⟩
  | succ left ih =>
      have hfree := h.free
      have hne : s.ring.eventRingDequeue ≠ s.ring.eventRingEnqueue := by
        rw [h.dequeue, henqueue]
        exact mod_ne_of_lt hcap (by omega) hfree
      have hstep := EventStep.handle hphase (h.number.symm ▸ hless)
        (by unfold EventRing.xhcCheckNewEvent; rw [if_neg hne])
      obtain ⟨s', hrun, hrest⟩ := ih (h.step hcap hstep) rfl henqueue
        (by simp only [List.length_append, List.length_singleton]; omega) (by omega)
        (by simp only [List.length_append, List.length_singleton]; omega)
      exact ⟨s', hrun.head hstep, hrest⟩

/-- A poll of an aligned driver that is neither disturbed nor left early handles all the
events, and leaves the driver aligned. -/
theorem EventInv.poll_handles (h : EventInv cap s) (hcap : 0 < cap) (hphase : s.phase = .idle)
    (haligned : s.Aligned) :
    ∃ s', EventRun s s' ∧ s'.phase = .idle ∧ s'.posted = s.posted ∧ s'.handled = s.posted ∧
      s'.Aligned := by
  have hstate : s.ring.eventRingCCS = lapBit cap (s.handled.length + 0) := by
    rw [Nat.add_zero, ← h.number]
    exact haligned
  have hstart := h.step hcap (.poll hphase)
  obtain ⟨s₁, hscan, hphase₁, hposted₁, hhandled₁, henqueue₁, hstate₁⟩ :=
    hstart.scan_ends hcap (by simp only [h.dequeue, Nat.add_zero]) h.inOrder.length_le hstate
  have hinv₁ := hstart.run hcap hscan
  obtain ⟨s₂, hhandle, hphase₂, hposted₂, hhandled₂, hstate₂⟩ :=
    hinv₁.handle_ends hcap hphase₁ (by rw [henqueue₁, hposted₁]) (by
      rw [hposted₁, hhandled₁]
      exact h.free)
  have hinv₂ := hinv₁.run hcap hhandle
  refine ⟨s₂, (hscan.trans hhandle).head (.poll hphase), hphase₂, hposted₂.trans hposted₁,
    hhandled₂.trans hposted₁, ?_⟩
  unfold EventSystem.Aligned
  rw [hinv₂.number, hstate₂, hstate₁, hhandled₂, hposted₁]

/-- Between polls the driver can handle a further event exactly if it is aligned. -/
theorem EventInv.stuck_iff (h : EventInv cap s) (hcap : 1 < cap) (hphase : s.phase = .idle) :
    (∀ s', EventRun s s' → s'.handled = s.handled) ↔ ¬s.Aligned := by
  have hpos : 0 < cap := Nat.lt_of_succ_lt hcap
  constructor
  · intro hstuck haligned
    -- A poll handles what has been posted, and one more event if all has been handled.
    by_cases hmore : s.handled = s.posted
    · obtain rfl := h.number
      have hpost := EventStep.post
        { cycleBit := lapBit s.ring.trbNumber s.posted.length } rfl (by rw [hmore]; omega)
      obtain ⟨s', hrun, _, _, hhandled, _⟩ :=
        (h.step hpos hpost).poll_handles hpos hphase haligned
      have hsame := hstuck s' (hrun.head hpost)
      rw [hhandled, hmore] at hsame
      exact absurd (congrArg List.length hsame) (by simp)
    · obtain ⟨s', hrun, _, _, hhandled, _⟩ := h.poll_handles hpos hphase haligned
      exact hmore ((hstuck s' hrun).symm.trans hhandled)
  · intro haligned s' hrun
    have hinv := h.phase
    rw [hphase, ← h.number] at hinv
    have hstuck : Stuck s :=
      { waiting := hinv.resolve_left haligned
        state := (lapBit_eq_or _ _).resolve_left haligned
        phase := Or.inl hphase }
    exact hstuck.run h hpos hrun

/-- A poll that leaves early after an event handles no further event in any run exactly if the
scan that began it has wrapped and the dequeue pointer has not. -/
theorem leave_stuck_iff (hcap : 0 < cap) (hrun : EventRun (.start cap) s) {index : Nat}
    (hphase : s.phase = .handle index) (hindex : index < s.ring.trbNumber) {e : EvtTrb}
    {r : EventRing} (hevent : s.ring.xhcCheckNewEvent = (some e, r)) :
    (∀ s', EventRun { s with ring := r, phase := .idle, handled := s.handled ++ [e] } s' →
      s'.handled = s.handled ++ [e]) ↔ r.eventRingEnqueue < r.eventRingDequeue := by
  have hinv := eventInv_run hcap hrun
  have hleft := hinv.step hcap (.leave hphase hindex hevent)
  have hcursor := hinv.phase
  rw [hphase] at hcursor
  obtain ⟨hring, ⟨hlt, _⟩, hcursor'⟩ := hinv.checkNewEvent hcap hcursor hevent
  obtain ⟨c, hle, hposted, _, henqueue, hstate⟩ := hcursor'
  have hfree := hinv.free
  have hnumber := hinv.number
  have hlaps := lapBit_eq_iff_mod_le hcap hle (by omega)
  have hringNumber : r.trbNumber = cap := by rw [hring, ← hnumber]
  have hdequeue : r.eventRingDequeue = (s.handled.length + 1) % cap := by rw [hring]
  rw [hleft.stuck_iff (by omega) rfl, EventSystem.Aligned, hstate, hdequeue, henqueue,
    ← Nat.not_le, hringNumber, List.length_append]
  exact not_congr hlaps

/-- On a ring of three TRBs the scan has seen two events, and wrapped; after an error at the
first of the two the second is never handled. -/
theorem leave_stuck_iff_wrap :
    ∃ s e r, EventRun (.start 3) s ∧ s.ring.xhcCheckNewEvent = (some e, r) ∧
      s.handled.length + 2 = s.posted.length ∧
      ∀ s', EventRun { s with ring := r, phase := .idle, handled := s.handled ++ [e] } s' →
        s'.handled = s.handled ++ [e] := by
  have hfirst : EventRun (.start 3) _ :=
    (((((Relation.ReflTransGen.single (.post { cycleBit := true } rfl (by decide))).tail
      (.poll rfl)).tail (.scanOn rfl (by decide) rfl)).tail (.scanStop rfl (by decide) rfl)).tail
      (.handle rfl (by decide) rfl)).tail (.drained rfl (by decide) rfl)
  have hsecond : EventRun (.start 3) _ :=
    ((((((hfirst.tail (.post { cycleBit := true } rfl (by decide))).tail
      (.post { cycleBit := true } rfl (by decide))).tail (.poll rfl)).tail
      (.scanOn rfl (by decide) rfl)).tail (.scanOn rfl (by decide) rfl)).tail
      (.scanStop rfl (by decide) rfl))
  exact ⟨_, _, _, hsecond, rfl, rfl,
    (leave_stuck_iff (by decide) hsecond rfl (by decide) rfl).mpr (by decide)⟩

end Step

end XhciDxe
end EfiApps
