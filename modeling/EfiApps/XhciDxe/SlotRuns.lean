import EfiApps.XhciDxe.PortChanges
import EfiApps.XhciDxe.RequestMemory

/-!
# Slots over whole runs

Ports change and devices are sent requests, in any order, and the controller may refuse any
command.  In every state that is reached the slots in use are a tree, which changes only as
ports do, and what belongs to the slots is kept apart.

A hub is at most five hubs deep, and the root hub has less than 255 ports.
-/

namespace EfiApps
namespace XhciDxe

open PciMisc (EfiStatus)

/-! ## The calls of the driver -/

/-- What the USB bus driver does: it looks at a port of the root hub, or sends a request to a
device.  Requests come with the answer of the device, or with the `RingPCS` of the rings. -/
inductive SlotCall
  | rootPort (port : Nat) (portState : PortState)
  | hubPort (deviceAddress : BitVec 8) (port : Nat) (portState : PortState)
  | setAddress (deviceAddress value : BitVec 8)
  | deviceDescriptor (deviceAddress : BitVec 8) (numConfigurations : Option Nat)
  | configDescriptor (deviceAddress : BitVec 8) (index : Nat) (data : List (BitVec 8))
  | setConfig (deviceAddress : BitVec 8) (ringPCS : Nat → Bool) (deviceSpeed : UsbSpeed)
      (value : BitVec 8)
  | setInterface (deviceAddress : BitVec 8) (ringPCS : Nat → Bool) (deviceSpeed : UsbSpeed)
      (index value : BitVec 8)

/-- `none` counts as the worst that it stands for. -/
def orHalt {α : Type} : Option α → DescriptorWalk α
  | some a => .ok a
  | none => .error .invalidFree

namespace XhcSlots

/-- `XhcControlTransfer` checks that the device has a slot. -/
def request (deviceAddress : BitVec 8) (f : Nat → XhcSlots → DescriptorWalk XhcSlots)
    (x : XhcSlots) : DescriptorWalk XhcSlots :=
  if x.xhcBusDevAddrToSlotId deviceAddress = 0 then .ok x
  else f (x.xhcBusDevAddrToSlotId deviceAddress) x

/-- A port of the hub with this route has changed. -/
def pollPort (controller : Controller) (left : Nat) (routeString : UsbDevRoute) (port : Nat)
    (portState : PortState) (x : XhcSlots) : DescriptorWalk XhcSlots :=
  orHalt ((x.xhcPollPortStatusChange controller left routeString port portState).map Prod.snd)

end XhcSlots

open XhcSlots in
def SlotCall.run (controller : Controller) (left : Nat) :
    SlotCall → XhcSlots → DescriptorWalk XhcSlots
  | .rootPort port portState, x => x.pollPort controller left {} port portState
  | .hubPort deviceAddress port portState, x =>
      x.request deviceAddress fun slotId x =>
        x.pollPort controller left (x.usbDevContext slotId).routeString port portState
  | .setAddress deviceAddress value, x =>
      x.request deviceAddress fun slotId x => .ok (x.setAddress slotId value).2
  | .deviceDescriptor deviceAddress numConfigurations, x =>
      x.request deviceAddress fun slotId x => .ok (x.deviceDescriptor slotId numConfigurations)
  | .configDescriptor deviceAddress index data, x =>
      x.request deviceAddress fun slotId x => getConfigDescriptor slotId index data x
  | .setConfig deviceAddress ringPCS deviceSpeed value, x =>
      x.request deviceAddress fun slotId x =>
        setConfiguration ringPCS slotId deviceSpeed controller value x
  | .setInterface deviceAddress ringPCS deviceSpeed index value, x =>
      x.request deviceAddress fun slotId x =>
        XhciDxe.setInterface ringPCS slotId deviceSpeed controller index value x

/-- A root hub has less than 255 ports, and a hub is at most five hubs deep. -/
def SlotCall.Admissible (x : XhcSlots) : SlotCall → Prop
  | .rootPort port _ => port < 255
  | .hubPort deviceAddress _ _ =>
      (x.usbDevContext (x.xhcBusDevAddrToSlotId deviceAddress)).routeString.tierNum.toNat ≤ 5
  | _ => True

instance (x : XhcSlots) (c : SlotCall) : Decidable (c.Admissible x) := by
  cases c <;> unfold SlotCall.Admissible <;> infer_instance

/-- One call. -/
inductive SlotStep (controller : Controller) (left : Nat) : XhcSlots → XhcSlots → Prop
  | call {x x' : XhcSlots} (c : SlotCall) (hadmissible : c.Admissible x)
      (hrun : c.run controller left x = .ok x') : SlotStep controller left x x'

/-- The port `port` of the hub at `l` has changed, from one state to another. -/
def PortStep (l : List Nat) (port : Nat) (portState : PortState) (x x' : XhcSlots)
    (t t' : PlaceTree Nat Nat) : Prop :=
  ∃ given, x'.commands = x.commands ++ given ∧ PortChange t l port portState given t'

/-- What a call does to the tree: it changes a port of the root hub, or of the hub that is found
by its address, and nothing else. -/
def SlotCall.TreeStep (x x' : XhcSlots) (t t' : PlaceTree Nat Nat) : SlotCall → Prop
  | .rootPort port portState => PortStep [] port portState x x' t t'
  | .hubPort deviceAddress port portState =>
      if x.xhcBusDevAddrToSlotId deviceAddress = 0 then t' = t
      else ∃ l, t.place (x.xhcBusDevAddrToSlotId deviceAddress) = some l ∧
        PortStep l port portState x x' t t'
  | _ => t' = t

/-! ## Each call keeps the invariant -/

section Calls

variable {controller : Controller} {t : PlaceTree Nat Nat} {x x' : XhcSlots} {i left : Nat}
  {l : List Nat}

theorem pollPort_inv (hregular : controller.Regular) (hleft : 6 ≤ left) (hinv : SlotsInv t x)
    (hhub : l ≠ [] → ∃ j, t.place j = some l) (hl : IsPlace l) (hdepth : l.length ≤ 5) {port : Nat}
    (hroot : l = [] → port < 255) (portState : PortState) :
    ∃ x' t', x.pollPort controller left (routeOf l) port portState = .ok x' ∧ SlotsInv t' x' ∧
      PortStep l port portState x x' t t' := by
  obtain ⟨status, x', t', given, hrun, hcommands, hinv', hchange⟩ :=
    xhcPollPortStatusChange_inv hregular hinv hhub hl hdepth hroot hleft portState
  refine ⟨x', t', ?_, hinv', given, hcommands, hchange⟩
  unfold XhcSlots.pollPort
  rw [hrun]
  rfl

/-- The slots of a tree, after a call that the tree follows. -/
def Follows (c : SlotCall) (x : XhcSlots) (t : PlaceTree Nat Nat) (x' : XhcSlots) : Prop :=
  ∃ t', SlotsInv t' x' ∧ c.TreeStep x x' t t'

/-- What a request does to a slot that is in use. -/
theorem request_inv {P : XhcSlots → Prop} {R : WalkHalt → Prop} (hinv : SlotsInv t x)
    {deviceAddress : BitVec 8} {f : Nat → XhcSlots → DescriptorWalk XhcSlots}
    (hnone : x.xhcBusDevAddrToSlotId deviceAddress = 0 → P x)
    (hcall : ∀ {l}, t.place (x.xhcBusDevAddrToSlotId deviceAddress) = some l →
      x.xhcBusDevAddrToSlotId deviceAddress ≠ 0 →
        Outcome P R (f (x.xhcBusDevAddrToSlotId deviceAddress) x)) :
    Outcome P R (x.request deviceAddress f) := by
  unfold XhcSlots.request
  split_ifs with hfound
  · exact hnone hfound
  · obtain ⟨l, hplace, _⟩ := hinv.tree.findSlotId_ne_zero hfound
    exact hcall hplace hfound

/-- A port of a hub changes. -/
theorem hubPort_inv (hregular : controller.Regular) (hleft : 6 ≤ left) (hinv : SlotsInv t x)
    {deviceAddress : BitVec 8} {port : Nat} {portState : PortState}
    (hadmissible : (SlotCall.hubPort deviceAddress port portState).Admissible x)
    (hplace : t.place (x.xhcBusDevAddrToSlotId deviceAddress) = some l) :
    ∃ x' t', x.pollPort controller left
        (x.usbDevContext (x.xhcBusDevAddrToSlotId deviceAddress)).routeString port portState =
          .ok x' ∧
      SlotsInv t' x' ∧ PortStep l port portState x x' t t' := by
  have hentry := hinv.tree.entry hplace
  have hdepth : l.length ≤ 5 := by
    rw [← tierNum_routeOf hentry.isPlace, ← hentry.route]
    exact hadmissible
  have hnonempty : l ≠ [] := by
    rintro rfl
    exact t.nonempty _ hplace
  rw [hentry.route]
  exact pollPort_inv hregular hleft hinv (fun _ => ⟨_, hplace⟩) hentry.isPlace hdepth
    (fun h => absurd h hnonempty) portState

/-- Every call keeps the invariant, frees nothing that is not allocated, and does to the tree
what it is to do. -/
theorem SlotCall.run_inv (hregular : controller.Regular) (hleft : 6 ≤ left) (hinv : SlotsInv t x)
    {c : SlotCall} (hadmissible : c.Admissible x) :
    Safe (Follows c x t) (c.run controller left x) := by
  cases c with
  | rootPort port portState =>
      obtain ⟨x', t', hrun, hinv', hstep⟩ :=
        pollPort_inv hregular hleft hinv (l := []) (fun h => absurd rfl h) trivial
          (Nat.zero_le _) (fun _ => hadmissible) portState
      rw [show (SlotCall.rootPort port portState).run controller left x = .ok x' from hrun]
      exact ⟨t', hinv', hstep⟩
  | hubPort deviceAddress port portState =>
      rw [SlotCall.run]
      apply request_inv hinv
      · intro hnone
        refine ⟨t, hinv, ?_⟩
        rw [SlotCall.TreeStep, if_pos hnone]
      · intro l hplace hfound
        obtain ⟨x', t', hrun, hinv', hstep⟩ := hubPort_inv hregular hleft hinv hadmissible hplace
        rw [hrun]
        refine ⟨t', hinv', ?_⟩
        rw [SlotCall.TreeStep, if_neg hfound]
        exact ⟨l, hplace, hstep⟩
  | setAddress deviceAddress value =>
      rw [SlotCall.run]
      apply request_inv hinv (fun _ => ⟨t, hinv, rfl⟩)
      intro l _ _
      exact ⟨t, setAddress_inv hinv _ value, rfl⟩
  | deviceDescriptor deviceAddress numConfigurations =>
      rw [SlotCall.run]
      apply request_inv hinv (fun _ => ⟨t, hinv, rfl⟩)
      intro l hplace _
      exact ⟨t, deviceDescriptor_inv hinv hplace numConfigurations, rfl⟩
  | configDescriptor deviceAddress index data =>
      rw [SlotCall.run]
      apply request_inv hinv (fun _ => ⟨t, hinv, rfl⟩)
      intro l hplace _
      exact (safe_getConfigDescriptor hinv hplace index data).mono fun _ h => ⟨t, h, rfl⟩
  | setConfig deviceAddress ringPCS deviceSpeed value =>
      rw [SlotCall.run]
      apply request_inv hinv (fun _ => ⟨t, hinv, rfl⟩)
      intro l hplace _
      exact (safe_setConfiguration controller hinv hplace value).mono fun _ h => ⟨t, h, rfl⟩
  | setInterface deviceAddress ringPCS deviceSpeed index value =>
      rw [SlotCall.run]
      apply request_inv hinv (fun _ => ⟨t, hinv, rfl⟩)
      intro l hplace _
      exact (safe_setInterface controller hinv hplace index value).mono fun _ h => ⟨t, h, rfl⟩

theorem byteAt_of_lt {conf : List (BitVec 8)} {p : Nat} (h : p < conf.length) :
    byteAt conf p = .ok conf[p] := by
  unfold byteAt
  rw [List.getElem?_eq_getElem h]

end Calls

/-! ## Every run -/

/-- A state that calls lead to. -/
def SlotsReachable (controller : Controller) (left : Nat) : XhcSlots → Prop :=
  Relation.ReflTransGen (SlotStep controller left) {}

/-! ### A device behind a hub -/

/-- Commands succeed, unless there is no slot to enable. -/
def severalSlots (n : Nat) : Controller where
  maxSlotsEn := n
  answer
    | commands, .enableSlot =>
        match (List.range n).find? fun k => !heldSlots commands (k + 1) with
        | some k => { status := .success, slotId := k + 1 }
        | none => { status := deviceError }
    | _, .addressDevice slotId =>
        { status := .success, deviceAddress := BitVec.ofNat 8 slotId }
    | _, _ => { status := .success }

theorem severalSlots_enable (n : Nat) (commands : List (SlotCommand × CmdResult))
    (h : ((severalSlots n).answer commands .enableSlot).status.isError = false) :
    ∃ k < n, ((severalSlots n).answer commands .enableSlot).slotId = k + 1 ∧
      heldSlots commands (k + 1) = false := by
  simp only [severalSlots] at h ⊢
  cases hfind : (List.range n).find? fun k => !heldSlots commands (k + 1) with
  | none =>
      rw [hfind] at h
      cases h
  | some k =>
      have hfree := List.find?_some hfind
      refine ⟨k, List.mem_range.mp (List.mem_of_find?_eq_some hfind), rfl, ?_⟩
      simpa using hfree

theorem severalSlots_regular {n : Nat} (hn : n ≤ 255) : (severalSlots n).Regular where
  number := hn
  range commands h := by
    obtain ⟨k, hk, hslot, _⟩ := severalSlots_enable n commands h
    rw [hslot]
    exact ⟨Nat.succ_ne_zero k, hk⟩
  free commands h := by
    obtain ⟨k, _, hslot, hfree⟩ := severalSlots_enable n commands h
    rw [hslot]
    exact hfree

/-- One call after the other. -/
def runSlotCalls (controller : Controller) (left : Nat) : List SlotCall → XhcSlots → Option XhcSlots
  | [], x => some x
  | c :: calls, x =>
      if c.Admissible x then
        match c.run controller left x with
        | .ok x => runSlotCalls controller left calls x
        | .error _ => none
      else none

theorem SlotsReachable.runSlotCalls {controller : Controller} {left : Nat} {x x' : XhcSlots}
    {calls : List SlotCall} (h : SlotsReachable controller left x)
    (hrun : runSlotCalls controller left calls x = some x') : SlotsReachable controller left x' := by
  induction calls generalizing x with
  | nil => exact Option.some.inj hrun ▸ h
  | cons c calls ih =>
      rw [XhciDxe.runSlotCalls] at hrun
      split_ifs at hrun with hadmissible
      cases hcall : c.run controller left x with
      | error halt =>
          rw [hcall] at hrun
          cases hrun
      | ok y =>
          rw [hcall] at hrun
          exact ih (h.tail (.call c hadmissible hcall)) hrun

/-- A port that reports a device after its reset. -/
def attachedPort (highSpeed : Bool) : PortState where
  connection := true
  enable := true
  highSpeed := highSpeed
  resetChange := true

/-- A high speed hub is at the first port of the root hub, and a full speed device behind it. -/
def hubAndDevice : List SlotCall :=
  [.rootPort 0 (attachedPort true), .setAddress 0 1, .hubPort 1 1 (attachedPort false),
    .setAddress 0 2]

def behindHub : XhcSlots := (runSlotCalls (severalSlots 4) 6 hubAndDevice {}).getD {}

theorem fourSlots_regular : (severalSlots 4).Regular := severalSlots_regular (by decide)

theorem behindHub_reachable : SlotsReachable (severalSlots 4) 6 behindHub := by
  have hsome : (runSlotCalls (severalSlots 4) 6 hubAndDevice {}).isSome = true := by
    decide +kernel
  unfold behindHub
  cases hrun : runSlotCalls (severalSlots 4) 6 hubAndDevice {} with
  | none =>
      rw [hrun] at hsome
      cases hsome
  | some x => exact SlotsReachable.runSlotCalls .refl hrun

example : behindHub.isLive 2 = true ∧
    (behindHub.usbDevContext 2).parentRouteString = (behindHub.usbDevContext 1).routeString := by
  decide +kernel

section Runs

variable {controller : Controller} {t : PlaceTree Nat Nat} {x : XhcSlots} {left : Nat}

/-- Before the first call no slot is in use. -/
theorem slotsInv_start : SlotsInv PlaceTree.empty {} where
  tree :=
    { live_iff := by
        intro i
        constructor
        · intro h
          cases h
        · rintro ⟨l, h⟩
          cases h
      entry := fun h => by cases h }
  memory :=
    { nodup := fun _ h => by cases h
      allocated := fun _ h => by cases h
      apart := fun _ _ _ h => by cases h
      dcbaa := fun _ _ h => by cases h
      output := fun _ h => by cases h
      rings := fun _ h => by cases h
      fresh := fun _ h => by cases h
      once := List.nodup_nil }
  contexts _ _ h := by cases h

theorem SlotsReachable.slotsInv (hregular : controller.Regular) (hleft : 6 ≤ left)
    (h : SlotsReachable controller left x) : ∃ t, SlotsInv t x := by
  induction h with
  | refl => exact ⟨_, slotsInv_start⟩
  | tail _ hstep ih =>
      obtain ⟨t, hinv⟩ := ih
      obtain ⟨c, hadmissible, hrun⟩ := hstep
      have hsafe := c.run_inv hregular hleft hinv hadmissible
      rw [hrun] at hsafe
      obtain ⟨t', hinv', _⟩ := hsafe
      exact ⟨t', hinv'⟩

/-- The slots in use are the nodes of `t`, and a route leads to the slot at its place. -/
structure Shows (t : PlaceTree Nat Nat) (x : XhcSlots) : Prop where
  live_iff : ∀ i, x.isLive i = true ↔ ∃ l, t.place i = some l
  place_iff : ∀ i l, t.place i = some l ↔
    IsPlace l ∧ i ≠ 0 ∧ x.xhcRouteStringToSlotId (routeOf l) = i

theorem SlotsInv.shows (hinv : SlotsInv t x) : Shows t x where
  live_iff := hinv.tree.live_iff
  place_iff i l := by
    constructor
    · intro hplace
      have hentry := hinv.tree.entry hplace
      refine ⟨hentry.isPlace, ?_, hinv.tree.routeToSlotId hplace⟩
      obtain ⟨n, _, hn⟩ := List.mem_map.mp hentry.mem
      omega
    · rintro ⟨hl, hpos, rfl⟩
      by_cases hnone : ∀ j, t.place j ≠ some l
      · exact absurd (hinv.tree.routeToSlotId_eq_zero hl hnone) hpos
      · obtain ⟨j, hj⟩ := Classical.not_forall_not.mp hnone
        rw [hinv.tree.routeToSlotId hj]
        exact hj

/-- No other tree shows the same slots. -/
theorem Shows.unique {t' : PlaceTree Nat Nat} (h : Shows t x) (h' : Shows t' x) : t = t' := by
  ext i l
  rw [h.place_iff, h'.place_iff]

/-- In every state that is reached the slots in use are those of exactly one tree, and the next
call does to it what it is to do: a port that changes prunes what is at it and behind it, and
may add one device; a request changes nothing. -/
theorem slots_refine_tree (hregular : controller.Regular) (hleft : 6 ≤ left)
    (h : SlotsReachable controller left x) :
    (∃! t, Shows t x) ∧
      ∀ c : SlotCall, c.Admissible x → ∀ x', c.run controller left x = .ok x' →
        ∀ t t', Shows t x → Shows t' x' → c.TreeStep x x' t t' := by
  obtain ⟨t, hinv⟩ := h.slotsInv hregular hleft
  refine ⟨⟨t, hinv.shows, fun _ hother => hother.unique hinv.shows⟩, ?_⟩
  intro c hadmissible x' hrun s s' hs hs'
  have hsafe := c.run_inv hregular hleft hinv hadmissible
  rw [hrun] at hsafe
  obtain ⟨t', hinv', hstep⟩ := hsafe
  rw [hs.unique hinv.shows, hs'.unique hinv'.shows]
  exact hstep

theorem slots_refine_tree_behindHub :
    (∃! t, Shows t behindHub) ∧
      ∀ c : SlotCall, c.Admissible behindHub →
        ∀ x', c.run (severalSlots 4) 6 behindHub = .ok x' →
          ∀ t t', Shows t behindHub → Shows t' x' → c.TreeStep behindHub x' t t' :=
  slots_refine_tree fourSlots_regular (Nat.le_refl 6) behindHub_reachable

end Runs

end XhciDxe
end EfiApps
