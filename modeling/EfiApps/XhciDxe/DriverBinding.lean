import EfiApps.Lib.SafeRun
import EfiApps.PciMisc.Device

/-!
# Starting and stopping the XHCI driver

`XhcDriverBindingStart` allocates a `USB_XHCI_INSTANCE` and hands it out four times: as
the context of the poll timer and of the event that is signalled when boot services end,
and as the two interfaces that it installs on the controller.  `XhcDriverBindingStop` is
to take all four back before it frees the instance.

Every boot service may fail at every call.  One that fails changes nothing.
-/

namespace EfiApps
namespace XhciDxe

open PciMisc (EfiStatus)

/-! ## Boot services -/

/-- `EFI_ACCESS_DENIED`. -/
def accessDenied : EfiStatus := .error 15

/-- `EFI_ALREADY_STARTED`. -/
def alreadyStarted : EfiStatus := .error 20

/-- The notification functions that the driver has events created with. -/
inductive NotifyFunction
  | xhcMonitorAsyncRequests
  | xhcExitBootService
  deriving DecidableEq, Repr

/-- An event that has not been closed. -/
structure EfiEvent where
  handle : Nat
  notify : NotifyFunction
  context : Nat
  deriving DecidableEq, Repr

/-- The fields of `USB_XHCI_INSTANCE` that are set and read here. -/
structure UsbXhciInstance where
  pollTimer : Option Nat := none
  exitBootServiceEvent : Option Nat := none
  deriving DecidableEq, Repr, Inhabited

/-- What the driver has at a controller: the instances that have not been freed, the
events that have not been closed, whose `UsbHc` and whose `Usb2Hc` are installed on it,
and whether its `PciIo` is open by the driver.  Instances and events are numbered in the
order in which they were made. -/
structure System where
  nextInstance : Nat := 0
  instances : Nat → Option UsbXhciInstance := fun _ => none
  nextEvent : Nat := 0
  events : List EfiEvent := []
  usbHc : Option Nat := none
  usb2Hc : Option Nat := none
  pciIoOpen : Bool := false

namespace System

/-- `gBS->CreateEvent`, if it succeeds; the handle is the number of the event. -/
def createEvent (notify : NotifyFunction) (context : Nat) (s : System) : System :=
  { s with
    nextEvent := s.nextEvent + 1
    events := s.events ++ [⟨s.nextEvent, notify, context⟩] }

/-- `gBS->CloseEvent`; `NULL` is no event. -/
def closeEvent (handle : Option Nat) (s : System) : System :=
  { s with events := s.events.filter fun e => some e.handle ≠ handle }

/-- Store to an instance. -/
def setInstance (xhc : Nat) (i : UsbXhciInstance) (s : System) : System :=
  { s with instances := Function.update s.instances xhc (some i) }

/-- `FreePool (Xhc)`. -/
def freePool (xhc : Nat) (s : System) : System :=
  { s with instances := Function.update s.instances xhc none }

/-- `gBS->CloseProtocol` for `PciIo`. -/
def closePciIo (s : System) : System := { s with pciIoOpen := false }

end System

/-- What the boot services and the allocation answer during a call of
`XhcDriverBindingStart`, in the order of the calls. -/
structure StartCalls where
  openPciIo : EfiStatus := .success
  getAttributes : EfiStatus := .success
  supportedAttributes : EfiStatus := .success
  enableAttributes : EfiStatus := .success
  allocate : Bool := true
  createPollTimer : EfiStatus := .success
  setTimer : EfiStatus := .success
  createExitBootServiceEvent : EfiStatus := .success
  install : EfiStatus := .success
  deriving DecidableEq, Repr

/-- The same for `XhcDriverBindingStop`. -/
structure StopCalls where
  openUsbHc : EfiStatus := .success
  uninstallUsbHc : EfiStatus := .success
  openUsb2Hc : EfiStatus := .success
  uninstallUsb2Hc : EfiStatus := .success
  deriving DecidableEq, Repr

/-! ## The driver -/

/-- `XhcCreateUsbHc`: the instance, or `NULL`. -/
def xhcCreateUsbHc (o : StartCalls) (s : System) : Option Nat × System :=
  if o.allocate = false then (none, s)
  else
    let xhc := s.nextInstance
    let s := { s with nextInstance := s.nextInstance + 1 }.setInstance xhc {}
    if o.createPollTimer.isError then (none, s.freePool xhc)
    else
      (some xhc, (s.createEvent .xhcMonitorAsyncRequests xhc).setInstance xhc
        { pollTimer := some s.nextEvent })

/-- The label `FREE_POOL` of `XhcDriverBindingStart`. -/
def startFreePool (xhc : Nat) (s : System) : System :=
  ((s.closeEvent ((s.instances xhc).bind (·.pollTimer))).freePool xhc).closePciIo

/-- `XhcDriverBindingStart` from the timer on.  A protocol is installed on a handle only
once. -/
def startInstance (o : StartCalls) (xhc : Nat) (s : System) : EfiStatus × System :=
  if o.setTimer.isError then (o.setTimer, startFreePool xhc s)
  else if o.createExitBootServiceEvent.isError then
    (o.createExitBootServiceEvent, startFreePool xhc s)
  else
    let event := s.nextEvent
    let s := (s.createEvent .xhcExitBootService xhc).setInstance xhc
      { (s.instances xhc).getD {} with exitBootServiceEvent := some event }
    let status := if s.usbHc.isSome || s.usb2Hc.isSome then .invalidParameter else o.install
    if status.isError then (status, startFreePool xhc s)
    else (.success, { s with usbHc := some xhc, usb2Hc := some xhc })

/-- `XhcDriverBindingStart`.  `PciIo` is opened by one driver at a time. -/
def xhcDriverBindingStart (o : StartCalls) (s : System) : EfiStatus × System :=
  let status := if s.pciIoOpen then alreadyStarted else o.openPciIo
  if status.isError then (status, s)
  else
    let s := { s with pciIoOpen := true }
    if o.getAttributes.isError then (o.getAttributes, s.closePciIo)
    else
      let status :=
        if o.supportedAttributes.isError then o.supportedAttributes else o.enableAttributes
      if status.isError then (status, s.closePciIo)
      else
        match xhcCreateUsbHc o s with
        -- This return leaves `PciIo` open.
        | (none, s) => (.outOfResources, s)
        | (some xhc, s) => startInstance o xhc s

/-- `XhcDriverBindingStop`.  Its statuses decide nothing: it goes on with the instance
that `Usb2Hc` belongs to, which is an uninitialized pointer if the interface could not be
opened. -/
def xhcDriverBindingStop (o : StopCalls) (s : System) : Run (EfiStatus × System) := do
  let s :=
    if s.usbHc.isSome && !o.openUsbHc.isError && !o.uninstallUsbHc.isError then
      { s with usbHc := none }
    else s
  -- The statuses above are overwritten, and what follows uses `Usb2Hc` in any case.
  let usb2Hc := if o.openUsb2Hc.isError then none else s.usb2Hc
  let s :=
    if usb2Hc.isSome && !o.uninstallUsb2Hc.isError then { s with usb2Hc := none } else s
  let xhc ← Run.deref usb2Hc
  let i ← Run.deref (s.instances xhc)
  let s := s.closeEvent i.pollTimer
  let s := s.closeEvent i.exitBootServiceEvent
  .ok (.success, s.closePciIo.freePool xhc)

/-- `XhcExitBootService`, called with the context of its event. -/
def xhcExitBootService (context : Nat) (s : System) : Run System := do
  let i ← Run.deref (s.instances context)
  .ok (s.closeEvent i.pollTimer)

/-- The end of boot services signals every event with that notification function. -/
def signalExitBootServices (s : System) : Run System :=
  (s.events.filter (·.notify = .xhcExitBootService)).foldlM
    (fun s e => xhcExitBootService e.context s) s

/-! ## Sequences of calls -/

/-- A call by the boot services. -/
inductive Call
  | start (o : StartCalls)
  | stop (o : StopCalls)
  deriving DecidableEq, Repr

/-- What a call does to the system. -/
def Call.run : Call → System → Run System
  | .start o, s => .ok (xhcDriverBindingStart o s).2
  | .stop o, s => do
      let (_, s) ← xhcDriverBindingStop o s
      .ok s

/-- The memory of the instance has not been freed. -/
def System.Live (s : System) (xhc : Nat) : Prop := (s.instances xhc).isSome = true

/-- Every interface still installed and every event still open belongs to an instance
that has not been freed. -/
structure NothingDangles (s : System) : Prop where
  usbHc : ∀ xhc, s.usbHc = some xhc → s.Live xhc
  usb2Hc : ∀ xhc, s.usb2Hc = some xhc → s.Live xhc
  events : ∀ e ∈ s.events, s.Live e.context

/-- The call can open and uninstall both interfaces. -/
def StopCalls.UninstallsBoth (o : StopCalls) (s : System) : Prop :=
  (s.usbHc.isSome = true ∧ o.openUsbHc.isError = false ∧ o.uninstallUsbHc.isError = false) ∧
    s.usb2Hc.isSome = true ∧ o.openUsb2Hc.isError = false ∧ o.uninstallUsb2Hc.isError = false

/-- The call gets as far as installing the interfaces. -/
structure StartCalls.ReachesInstall (o : StartCalls) (s : System) : Prop where
  closed : s.pciIoOpen = false
  openPciIo : o.openPciIo.isError = false
  getAttributes : o.getAttributes.isError = false
  supportedAttributes : o.supportedAttributes.isError = false
  enableAttributes : o.enableAttributes.isError = false
  allocate : o.allocate = true
  createPollTimer : o.createPollTimer.isError = false
  setTimer : o.setTimer.isError = false
  createExitBootServiceEvent : o.createExitBootServiceEvent.isError = false

/-- Nothing dangles after the call, and if it is a `Stop` that cannot uninstall both
interfaces, then it frees nothing. -/
def Call.Safe (c : Call) (s s' : System) : Prop :=
  NothingDangles s' ∧
    ∀ o, c = .stop o → ¬ o.UninstallsBoth s → s'.instances = s.instances

/-- A `Start` that gets as far as installing the interfaces does install them, and a
`Stop` does uninstall them. -/
def Call.Meets : Call → System → Prop
  | .start o, s => o.ReachesInstall s → o.install.isError = false
  | .stop o, s => o.UninstallsBoth s

/-! ## The invariant -/

/-- The two interfaces are installed together, only while `PciIo` is open, and belong to
an instance; an instance knows the events that it is the context of. -/
structure Sound (s : System) : Prop where
  together : s.usbHc = s.usb2Hc
  opened : s.usb2Hc.isSome = true → s.pciIoOpen = true
  live : ∀ xhc, s.usb2Hc = some xhc → s.Live xhc
  events : ∀ e ∈ s.events, ∃ i, s.instances e.context = some i ∧
    (i.pollTimer = some e.handle ∨ i.exitBootServiceEvent = some e.handle)
  fresh : ∀ xhc, s.nextInstance ≤ xhc → s.instances xhc = none

theorem sound_init : Sound {} where
  together := rfl
  opened h := by cases h
  live _ h := by cases h
  events _ h := by cases h
  fresh _ _ := rfl

variable {s s' : System}

theorem Sound.nothingDangles (h : Sound s) : NothingDangles s where
  usbHc xhc hxhc := h.live xhc (h.together ▸ hxhc)
  usb2Hc := h.live
  events e he := by
    obtain ⟨i, hi, -⟩ := h.events e he
    rw [System.Live, hi]
    rfl

/-- The events of a live instance are not those of one that is yet to be allocated. -/
theorem Sound.context_ne (h : Sound s) {e : EfiEvent} (he : e ∈ s.events) :
    e.context ≠ s.nextInstance := by
  intro heq
  obtain ⟨i, hi, -⟩ := h.events e he
  rw [h.fresh e.context (le_of_eq heq.symm)] at hi
  cases hi

/-- What a failed `Start` leaves behind: at most an open `PciIo`. -/
structure Undone (s s' : System) : Prop where
  instances : s'.instances = s.instances
  events : ∀ e ∈ s'.events, e ∈ s.events
  usbHc : s'.usbHc = s.usbHc
  usb2Hc : s'.usb2Hc = s.usb2Hc
  nextInstance : s.nextInstance ≤ s'.nextInstance
  pciIoOpen : s'.pciIoOpen = s.pciIoOpen ∨ s.pciIoOpen = false

theorem Undone.sound (h : Undone s s') (hs : Sound s) : Sound s' where
  together := by rw [h.usbHc, h.usb2Hc, hs.together]
  opened hsome := by
    rw [h.usb2Hc] at hsome
    have hopen := hs.opened hsome
    rcases h.pciIoOpen with hsame | hclosed
    · rw [hsame, hopen]
    · rw [hclosed] at hopen
      cases hopen
  live xhc hxhc := by
    rw [System.Live, h.instances]
    exact hs.live xhc (h.usb2Hc ▸ hxhc)
  events e he := by
    rw [h.instances]
    exact hs.events e (h.events e he)
  fresh xhc hle := by
    rw [h.instances]
    exact hs.fresh xhc (h.nextInstance.trans hle)

/-! ## What `XhcDriverBindingStart` does -/

/-- The system once both events of a new instance have been created. -/
def armed (s : System) : System :=
  { s with
    nextInstance := s.nextInstance + 1
    instances := Function.update s.instances s.nextInstance
      (some { pollTimer := some s.nextEvent, exitBootServiceEvent := some (s.nextEvent + 1) })
    nextEvent := s.nextEvent + 2
    events := s.events ++ [⟨s.nextEvent, .xhcMonitorAsyncRequests, s.nextInstance⟩,
      ⟨s.nextEvent + 1, .xhcExitBootService, s.nextInstance⟩]
    pciIoOpen := true }

variable {o : StartCalls}

/-- A `Start` that reaches the installation. -/
theorem start_of_reachesInstall (hs : Sound s) (h : o.ReachesInstall s) :
    xhcDriverBindingStart o s =
      if o.install.isError then (o.install, startFreePool s.nextInstance (armed s))
      else (.success, { armed s with
        usbHc := some s.nextInstance
        usb2Hc := some s.nextInstance }) := by
  have hnone : s.usb2Hc = none := by
    cases husb2 : s.usb2Hc with
    | none => rfl
    | some xhc =>
        have hopen := hs.opened (by rw [husb2]; rfl)
        rw [h.closed] at hopen
        cases hopen
  have hnone' : s.usbHc = none := hs.together.trans hnone
  unfold xhcDriverBindingStart xhcCreateUsbHc startInstance
  simp only [h.closed, h.openPciIo, h.getAttributes, h.supportedAttributes, h.enableAttributes,
    h.allocate, h.createPollTimer, h.setTimer, h.createExitBootServiceEvent, Bool.false_eq_true,
    Bool.true_eq_false, if_false, System.createEvent, System.setInstance, hnone, hnone',
    Option.isSome_none, Bool.or_self, Function.update_self, Function.update_idem,
    Option.getD_some, List.append_assoc, List.cons_append, List.nil_append, armed]

/-- `FREE_POOL` undoes everything about an instance whose only event is its poll timer. -/
theorem undone_startFreePool (hs : Sound s) (hclosed : s.pciIoOpen = false)
    (hinstances : ∀ xhc, xhc ≠ s.nextInstance → s'.instances xhc = s.instances xhc)
    {timer : Nat} (htimer : s'.instances s.nextInstance = some { pollTimer := some timer })
    (hevents : ∀ e ∈ s'.events, e ∈ s.events ∨ e.handle = timer)
    (husb : s'.usbHc = s.usbHc) (husb2 : s'.usb2Hc = s.usb2Hc)
    (hnext : s.nextInstance ≤ s'.nextInstance) :
    Undone s (startFreePool s.nextInstance s') where
  instances := by
    funext xhc
    by_cases hxhc : xhc = s.nextInstance
    · subst hxhc
      exact (Function.update_self ..).trans (hs.fresh _ le_rfl).symm
    · exact (Function.update_of_ne hxhc ..).trans (hinstances xhc hxhc)
  events e he := by
    obtain ⟨hmem, hne⟩ := List.mem_filter.mp he
    rw [htimer] at hne
    refine (hevents e hmem).resolve_right fun hhandle => ?_
    simp [hhandle] at hne
  usbHc := husb
  usb2Hc := husb2
  nextInstance := hnext
  pciIoOpen := .inr hclosed

/-- A `Start` that does not reach the installation leaves nothing behind. -/
theorem start_undone (hs : Sound s) (h : ¬ o.ReachesInstall s) :
    Undone s (xhcDriverBindingStart o s).2 := by
  cases hclosed : s.pciIoOpen with
  | true =>
      have hrun : xhcDriverBindingStart o s = (alreadyStarted, s) := by
        unfold xhcDriverBindingStart
        rw [hclosed]
        rfl
      rw [hrun]
      exact ⟨rfl, fun _ he => he, rfl, rfl, le_rfl, .inl rfl⟩
  | false =>
      -- The system with the poll timer of a new instance created.
      let timed : System :=
        ((({ s with nextInstance := s.nextInstance + 1, pciIoOpen := true }.setInstance
          s.nextInstance {}).createEvent .xhcMonitorAsyncRequests s.nextInstance)).setInstance
            s.nextInstance { pollTimer := some s.nextEvent }
      have hothers : ∀ xhc, xhc ≠ s.nextInstance → timed.instances xhc = s.instances xhc :=
        fun xhc hxhc => (Function.update_of_ne hxhc ..).trans (Function.update_of_ne hxhc ..)
      have hinstance : timed.instances s.nextInstance = some { pollTimer := some s.nextEvent } :=
        Function.update_self ..
      have hevents : ∀ e ∈ timed.events, e ∈ s.events ∨ e.handle = s.nextEvent := by
        intro e he
        refine (List.mem_append.mp he).imp_right fun hnew => ?_
        exact congrArg EfiEvent.handle (List.mem_singleton.mp hnew)
      have hrefl : ∀ b, Undone s { s with pciIoOpen := b } := fun _ =>
        ⟨rfl, fun _ he => he, rfl, rfl, le_rfl, .inr hclosed⟩
      unfold xhcDriverBindingStart
      simp only [hclosed, Bool.false_eq_true, if_false]
      by_cases hopen : o.openPciIo.isError = true
      · rw [if_pos hopen]
        exact ⟨rfl, fun _ he => he, rfl, rfl, le_rfl, .inl rfl⟩
      rw [if_neg hopen]
      by_cases hget : o.getAttributes.isError = true
      · rw [if_pos hget]
        exact hrefl false
      rw [if_neg hget]
      by_cases hsupported : o.supportedAttributes.isError = true
      · simp only [if_pos hsupported]
        exact hrefl false
      simp only [if_neg hsupported]
      by_cases henable : o.enableAttributes.isError = true
      · rw [if_pos henable]
        exact hrefl false
      rw [if_neg henable]
      unfold xhcCreateUsbHc
      by_cases hallocate : o.allocate = false
      · rw [if_pos hallocate]
        exact hrefl true
      rw [if_neg hallocate]
      dsimp only
      by_cases hpoll : o.createPollTimer.isError = true
      · rw [if_pos hpoll]
        refine ⟨?_, fun _ he => he, rfl, rfl, Nat.le_succ _, .inr hclosed⟩
        show Function.update (Function.update s.instances s.nextInstance (some {})) s.nextInstance
          none = s.instances
        rw [Function.update_idem, Function.update_eq_self_iff, hs.fresh _ le_rfl]
      rw [if_neg hpoll]
      dsimp only
      unfold startInstance
      by_cases htimer : o.setTimer.isError = true
      · rw [if_pos htimer]
        exact undone_startFreePool hs hclosed hothers hinstance hevents rfl rfl (Nat.le_succ _)
      rw [if_neg htimer]
      by_cases hexit : o.createExitBootServiceEvent.isError = true
      · rw [if_pos hexit]
        exact undone_startFreePool hs hclosed hothers hinstance hevents rfl rfl (Nat.le_succ _)
      exact absurd ⟨hclosed, by simpa using hopen, by simpa using hget, by simpa using hsupported,
        by simpa using henable, by simpa using hallocate, by simpa using hpoll,
        by simpa using htimer, by simpa using hexit⟩ h

theorem armed_instances (s : System) : (armed s).instances s.nextInstance =
    some { pollTimer := some s.nextEvent, exitBootServiceEvent := some (s.nextEvent + 1) } :=
  Function.update_self ..

/-- A `Start` that installs the interfaces. -/
theorem sound_started (hs : Sound s) : Sound { armed s with
    usbHc := some s.nextInstance
    usb2Hc := some s.nextInstance } where
  together := rfl
  opened _ := rfl
  live xhc hxhc := by
    obtain rfl := Option.some.inj hxhc
    exact congrArg Option.isSome (armed_instances s)
  events e he := by
    rcases List.mem_append.mp he with hold | hnew
    · obtain ⟨i, hi, hhandle⟩ := hs.events e hold
      refine ⟨i, ?_, hhandle⟩
      exact (Function.update_of_ne (hs.context_ne hold) ..).trans hi
    · rcases List.mem_pair.mp hnew with rfl | rfl
      · exact ⟨_, armed_instances s, .inl rfl⟩
      · exact ⟨_, armed_instances s, .inr rfl⟩
  fresh xhc hle := by
    have hlt : s.nextInstance < xhc := hle
    exact (Function.update_of_ne (ne_of_gt hlt) ..).trans (hs.fresh xhc (le_of_lt hlt))

/-- A `Start` that cannot install them leaves the event for the end of boot services
open, with an instance for its context that has been freed. -/
theorem not_nothingDangles_armed (s : System) :
    ¬ NothingDangles (startFreePool s.nextInstance (armed s)) := by
  intro h
  have hevent : (⟨s.nextEvent + 1, .xhcExitBootService, s.nextInstance⟩ : EfiEvent) ∈
      (startFreePool s.nextInstance (armed s)).events := by
    refine List.mem_filter.mpr ⟨by simp [armed], ?_⟩
    simp [armed_instances]
  have hlive := h.events _ hevent
  have hfreed : (startFreePool s.nextInstance (armed s)).instances s.nextInstance = none :=
    Function.update_self ..
  rw [System.Live, hfreed] at hlive
  cases hlive

/-! ## What `XhcDriverBindingStop` does -/

/-- A `Stop` that uninstalls both interfaces closes the events of the instance it frees. -/
theorem stop_sound {o : StopCalls} (hs : Sound s) (h : o.UninstallsBoth s) :
    ∃ s', xhcDriverBindingStop o s = .ok (.success, s') ∧ Sound s' := by
  obtain ⟨⟨husb, hopen, huninstall⟩, husb2, hopen2, huninstall2⟩ := h
  obtain ⟨xhc, hxhc⟩ := Option.isSome_iff_exists.mp husb2
  obtain ⟨i, hi⟩ := Option.isSome_iff_exists.mp (hs.live xhc hxhc)
  unfold xhcDriverBindingStop
  simp only [husb, hopen, huninstall, hopen2, huninstall2, hxhc, hi, Bool.not_false, Bool.and_true,
    Bool.false_eq_true, if_false, if_true, Option.isSome_some, Run.deref_some, Run.ok_bind]
  refine ⟨_, rfl, ?_⟩
  constructor
  · rfl
  · intro hsome
    cases hsome
  · intro _ hsome
    cases hsome
  · intro e he
    obtain ⟨he, hexit⟩ := List.mem_filter.mp he
    obtain ⟨he, hpoll⟩ := List.mem_filter.mp he
    obtain ⟨i', hi', hhandle⟩ := hs.events e he
    refine ⟨i', ?_, hhandle⟩
    -- The instance that is freed is the context of no event that is left.
    refine (Function.update_of_ne (fun hcontext => ?_) ..).trans hi'
    obtain rfl : i = i' := Option.some.inj (by rw [← hi, ← hi', hcontext])
    rcases hhandle with hhandle | hhandle
    · simp [hhandle] at hpoll
    · simp [hhandle] at hexit
  · intro c hc
    by_cases hcx : c = xhc
    · exact hcx ▸ Function.update_self ..
    · exact (Function.update_of_ne hcx ..).trans (hs.fresh c hc)

/-- A `Stop` that returns has freed the instance that it found. -/
theorem stop_frees {o : StopCalls} {status : EfiStatus}
    (h : xhcDriverBindingStop o s = .ok (status, s')) : s'.instances ≠ s.instances := by
  unfold xhcDriverBindingStop at h
  dsimp only at h
  rw [Run.bind_eq_ok] at h
  obtain ⟨xhc, -, h⟩ := h
  rw [Run.bind_eq_ok] at h
  obtain ⟨i, hi, h⟩ := h
  simp only [Except.ok.injEq, Prod.mk.injEq] at h
  obtain ⟨-, rfl⟩ := h
  intro hsame
  have hfreed : s.instances xhc = none := by
    rw [← hsame]
    exact Function.update_self ..
  simp only [apply_ite System.instances, ite_self, hfreed, Run.deref_none] at hi
  cases hi

/-! ## Every sequence of calls -/

/-- One call is safe exactly if it meets the condition. -/
theorem call_safe_iff (hs : Sound s) (c : Call) :
    (∃ s', c.run s = .ok s' ∧ c.Safe s s') ↔ c.Meets s := by
  cases c with
  | start o =>
      constructor
      · rintro ⟨_, hrun, hsafe, -⟩ hreaches
        obtain rfl := Except.ok.inj hrun
        rw [start_of_reachesInstall hs hreaches] at hsafe
        by_contra hinstall
        rw [Bool.not_eq_false] at hinstall
        rw [if_pos hinstall] at hsafe
        exact not_nothingDangles_armed s hsafe
      · intro hmeets
        refine ⟨_, rfl, ?_, fun o h => by cases h⟩
        by_cases hreaches : o.ReachesInstall s
        · rw [start_of_reachesInstall hs hreaches, if_neg (by simp [hmeets hreaches])]
          exact (sound_started hs).nothingDangles
        · exact ((start_undone hs hreaches).sound hs).nothingDangles
  | stop o =>
      constructor
      · rintro ⟨s', hrun, -, hfrees⟩
        by_contra hmeets
        obtain ⟨⟨status, s₁⟩, hstop, h⟩ := Run.bind_eq_ok.mp hrun
        obtain rfl := Except.ok.inj h
        exact stop_frees hstop (hfrees o rfl hmeets)
      · intro hmeets
        obtain ⟨s', hstop, hs'⟩ := stop_sound hs hmeets
        refine ⟨s', ?_, hs'.nothingDangles, fun o' h hnot => ?_⟩
        · rw [Call.run, hstop]
          rfl
        · cases h
          exact absurd hmeets hnot

/-- A call that meets the condition keeps the invariant. -/
theorem call_sound (c : Call) (hs : Sound s) (hmeets : c.Meets s) (hrun : c.run s = .ok s') :
    Sound s' := by
  cases c with
  | start o =>
      obtain rfl := Except.ok.inj hrun
      by_cases hreaches : o.ReachesInstall s
      · rw [start_of_reachesInstall hs hreaches, if_neg (by simp [hmeets hreaches])]
        exact sound_started hs
      · exact (start_undone hs hreaches).sound hs
  | stop o =>
      obtain ⟨s₁, hstop, hs₁⟩ := stop_sound hs hmeets
      rw [Call.run, hstop] at hrun
      obtain rfl := Except.ok.inj hrun
      exact hs₁

/-- Whatever fails, a sequence of calls is safe exactly if every `Start` that gets as far
as installing the interfaces installs them, and every `Stop` uninstalls them. -/
theorem startStop_safe_iff (calls : List Call) :
    SafeFrom Call.run Call.Safe {} calls ↔ MeetFrom Call.run Call.Meets {} calls :=
  safeFrom_iff (fun c _ hs => call_safe_iff hs c)
    (fun c _ _ hs hmeets hrun => call_sound c hs hmeets hrun) sound_init calls

/-- A `Stop` that is denied the first interface frees the instance all the same, and the
interface stays installed. -/
theorem stop_denied_dangles :
    (∃ s s', Call.run (.start {}) {} = .ok s ∧
      Call.run (.stop { uninstallUsbHc := accessDenied }) s = .ok s' ∧
      s'.usbHc = some 0 ∧ s'.instances 0 = none) ∧
    ¬ SafeFrom Call.run Call.Safe {} [.start {}, .stop { uninstallUsbHc := accessDenied }] := by
  refine ⟨⟨_, _, rfl, rfl, rfl, rfl⟩, ?_⟩
  rintro ⟨s, hstart, -, s', hstop, hsafe, -⟩
  obtain rfl := Except.ok.inj hstart
  obtain rfl := Except.ok.inj hstop
  have hlive := hsafe.1.usbHc 0 rfl
  cases hlive

/-- Where nothing dangles, the end of boot services finds every instance that it is told
about. -/
theorem signalExitBootServices_returns (h : NothingDangles s) :
    (signalExitBootServices s).Returns := by
  refine @foldlM_visits _ _ _ (fun _ t => t.instances = s.instances) _ ?_ ?_ [] s rfl
  · intro _ e _ t t' ht hbody
    unfold xhcExitBootService at hbody
    rw [Run.bind_eq_ok] at hbody
    obtain ⟨i, -, hbody⟩ := hbody
    obtain rfl := Except.ok.inj hbody
    exact ht
  · intro _ e he t ht
    obtain ⟨i, hi⟩ := Option.isSome_iff_exists.mp (h.events e (List.mem_filter.mp he).1)
    unfold xhcExitBootService
    rw [ht, hi]
    exact Run.returns_ok _

end XhciDxe
end EfiApps
