import EfiApps.XhciDxe.SlotMemory

/-!
# Changes of ports

When a port changes, the slots of the devices at it and behind it are disabled, and a device
that the port reports gets a new slot.  On the tree of the slots this prunes the port, and adds
at most one node to it.
-/

namespace EfiApps
namespace XhciDxe

open PciMisc (EfiStatus)

/-! ## Finding a slot -/

section Find

variable {t : PlaceTree Nat Nat} {x : XhcSlots} {i : Nat} {l : List Nat}

/-- A slot that is found is in use, and the test holds of it. -/
theorem SlotsAt.findSlotId_ne_zero (h : SlotsAt t x) {p : UsbDevContext → Bool}
    (hfound : x.findSlotId p ≠ 0) :
    ∃ l, t.place (x.findSlotId p) = some l ∧ p (x.usbDevContext (x.findSlotId p)) = true := by
  unfold XhcSlots.findSlotId at hfound ⊢
  cases hfind : slotIndices.find? fun i => x.isLive i && p (x.usbDevContext i) with
  | none =>
      rw [hfind] at hfound
      exact absurd rfl hfound
  | some i =>
      have htest := List.find?_some (p := fun i => x.isLive i && p (x.usbDevContext i)) hfind
      rw [Bool.and_eq_true] at htest
      obtain ⟨l, hplace⟩ := (h.live_iff i).mp htest.1
      show ∃ l, t.place (x.usbDevContext i).slotId = some l ∧ _
      simp only [(h.entry hplace).slotId]
      exact ⟨l, hplace, htest.2⟩

/-- If the test holds of a slot in use, one is found. -/
theorem SlotsAt.findSlotId_pos (h : SlotsAt t x) {p : UsbDevContext → Bool}
    (hplace : t.place i = some l) (htest : p (x.usbDevContext i) = true) :
    x.findSlotId p ≠ 0 := by
  have hlive := (h.live_iff i).mpr ⟨l, hplace⟩
  unfold XhcSlots.findSlotId
  cases hfind : slotIndices.find? fun i => x.isLive i && p (x.usbDevContext i) with
  | none =>
      have hnot := List.find?_eq_none.mp hfind i (h.entry hplace).mem
      rw [hlive, htest] at hnot
      exact absurd rfl hnot
  | some j =>
      have hfound := List.find?_some (p := fun i => x.isLive i && p (x.usbDevContext i)) hfind
      rw [Bool.and_eq_true] at hfound
      have hused := hfound.1
      unfold XhcSlots.isLive at hused
      rw [Bool.and_eq_true, decide_eq_true_iff] at hused
      exact hused.2

/-- The slot at a place is found by its route. -/
theorem SlotsAt.routeToSlotId (h : SlotsAt t x) (hplace : t.place i = some l) :
    x.xhcRouteStringToSlotId (routeOf l) = i := by
  have hpos : x.xhcRouteStringToSlotId (routeOf l) ≠ 0 :=
    h.findSlotId_pos hplace (decide_eq_true (h.entry hplace).route)
  obtain ⟨m, hm, htest⟩ := h.findSlotId_ne_zero hpos
  rw [decide_eq_true_iff, (h.entry hm).route] at htest
  have hsame := routeOf_inj (h.entry hm).isPlace (h.entry hplace).isPlace htest
  exact t.unique hm (hsame ▸ hplace)

/-- No slot is found by the route of a place where there is none. -/
theorem SlotsAt.routeToSlotId_eq_zero (h : SlotsAt t x) (hl : IsPlace l)
    (hnone : ∀ j, t.place j ≠ some l) : x.xhcRouteStringToSlotId (routeOf l) = 0 := by
  by_contra hpos
  obtain ⟨m, hm, htest⟩ := h.findSlotId_ne_zero hpos
  rw [decide_eq_true_iff, (h.entry hm).route] at htest
  have hsame := routeOf_inj (h.entry hm).isPlace hl htest
  exact hnone _ (hsame ▸ hm)

end Find

/-! ## A new slot -/

section Attach

variable {controller : Controller} {t : PlaceTree Nat Nat} {x x' : XhcSlots} {i port : Nat}
  {l : List Nat}

/-- The place of a new device: its hub has a slot, and the place is free. -/
structure FreePlace (t : PlaceTree Nat Nat) (l : List Nat) (port : Nat) : Prop where
  hub : IsPlace l
  depth : l.length ≤ 5
  root : l = [] → port < 255
  slot : l ≠ [] → ∃ j, t.place j = some l
  free : ∀ j, t.place j ≠ some (childPlace l port)

theorem FreePlace.isPlace (h : FreePlace t l port) : IsPlace (childPlace l port) :=
  isPlace_child h.hub h.depth h.root

theorem FreePlace.parent (h : FreePlace t l port) (m : List Nat) (turn : Nat)
    (hchild : childPlace l port = m ++ [turn]) (hm : m ≠ []) : ∃ j, t.place j = some m := by
  unfold childPlace at hchild
  have hsame : l = m := List.append_inj_left' hchild rfl
  exact hsame ▸ h.slot (hsame ▸ hm)

theorem childPlace_ne_nil (l : List Nat) (port : Nat) : childPlace l port ≠ [] := by
  simp [childPlace]

/-- The tree with a new slot. -/
def FreePlace.graft (h : FreePlace t l port) (i : Nat) (hnode : t.place i = none) :
    PlaceTree Nat Nat :=
  t.graft i (childPlace l port) hnode h.free (childPlace_ne_nil l port) h.parent

/-- The entry `i` has been filled in for the new device, which has no slot context yet. -/
structure NewEntry (x x' : XhcSlots) (i : Nat) (l : List Nat) (port : Nat) : Prop where
  others : ∀ j, j ≠ i → x'.usbDevContext j = x.usbDevContext j
  enabled : (x'.usbDevContext i).enabled = true
  slotId : (x'.usbDevContext i).slotId = i
  route : (x'.usbDevContext i).routeString = routeOf (childPlace l port)
  parent : (x'.usbDevContext i).parentRouteString = routeOf l
  outputSlot : (x'.usbDevContext i).outputSlot = {}
  commands : x'.commands = x.commands

theorem newEntry_modify (x : XhcSlots) (i : Nat) (l : List Nat) (port : Nat) :
    NewEntry x (x.modify i fun _ =>
      { enabled := true
        slotId := i
        routeString := routeOf (childPlace l port)
        parentRouteString := routeOf l }) i l port where
  others _ hj := Function.update_of_ne hj _ _
  enabled := by simp [XhcSlots.modify]
  slotId := by simp [XhcSlots.modify]
  route := by simp [XhcSlots.modify]
  parent := by simp [XhcSlots.modify]
  outputSlot := by simp [XhcSlots.modify]
  commands := rfl

theorem NewEntry.allocate (h : NewEntry x x' i l port) : NewEntry x x'.allocate.2 i l port :=
  ⟨h.others, h.enabled, h.slotId, h.route, h.parent, h.outputSlot, h.commands⟩

/-- The entry gets its contexts and its first ring. -/
theorem NewEntry.fill (h : NewEntry x x' i l port) (inputContext outputContext : Nat) (r : RingPtr)
    (dcbaa : Nat → Option Nat) :
    NewEntry x { x'.modify i fun c =>
      { c with
        inputContext := some inputContext
        endpointTransferRing := c.endpointTransferRing.set 0 (some r)
        outputContext := some outputContext } with dcbaa := dcbaa } i l port where
  others j hj := (Function.update_of_ne hj _ _).trans (h.others j hj)
  enabled := by simpa [XhcSlots.modify] using h.enabled
  slotId := by simpa [XhcSlots.modify] using h.slotId
  route := by simpa [XhcSlots.modify] using h.route
  parent := by simpa [XhcSlots.modify] using h.parent
  outputSlot := by simpa [XhcSlots.modify] using h.outputSlot
  commands := h.commands

/-- The slots are those of the tree with the new one. -/
theorem SlotsAt.graft (hinv : SlotsAt t x) (h : FreePlace t l port) (hnode : t.place i = none)
    (hindex : i ∈ slotIndices) (hnew : NewEntry x x' i l port)
    (hheld : heldSlots x.commands i = true) : SlotsAt (h.graft i hnode) x' where
  live_iff j := by
    by_cases hj : j = i
    · subst hj
      have hpos : j ≠ 0 := by
        obtain ⟨n, _, hn⟩ := List.mem_map.mp hindex
        omega
      have hlive : x'.isLive j = true := by
        unfold XhcSlots.isLive
        rw [hnew.enabled, hnew.slotId, decide_eq_true hpos]
        rfl
      rw [hlive]
      exact ⟨fun _ => ⟨_, Function.update_self _ _ _⟩, fun _ => rfl⟩
    · have hplace : (h.graft i hnode).place j = t.place j := Function.update_of_ne hj _ _
      unfold XhcSlots.isLive
      rw [hplace, hnew.others j hj]
      exact hinv.live_iff j
  entry {j m} hm := by
    by_cases hj : j = i
    · subst hj
      have hplace : (h.graft j hnode).place j = some (childPlace l port) :=
        Function.update_self _ _ _
      rw [hplace, Option.some.injEq] at hm
      subst hm
      exact
        { slotId := hnew.slotId
          mem := hindex
          isPlace := h.isPlace
          route := hnew.route
          parent := by
            unfold childPlace
            rw [hnew.parent, List.dropLast_concat]
          held := by rw [hnew.commands, hheld] }
    · have hplace : (h.graft i hnode).place j = t.place j := Function.update_of_ne hj _ _
      rw [hplace] at hm
      have hentry := hinv.entry hm
      have hsame := hnew.others j hj
      exact
        { slotId := by rw [hsame, hentry.slotId]
          mem := hentry.mem
          isPlace := hentry.isPlace
          route := by rw [hsame, hentry.route]
          parent := by rw [hsame, hentry.parent]
          held := by rw [hnew.commands, hentry.held] }

theorem dropLast_childPlace (l : List Nat) (port : Nat) : (childPlace l port).dropLast = l := by
  unfold childPlace
  exact List.dropLast_concat

/-- No device is behind the new one. -/
theorem FreePlace.leaf (h : FreePlace t l port) (hnode : t.place i = none) (j : Nat)
    (m : List Nat) (hm : (h.graft i hnode).place j = some m) : m.dropLast ≠ childPlace l port := by
  intro hbehind
  by_cases hj : j = i
  · subst hj
    have hplace : (h.graft j hnode).place j = some (childPlace l port) :=
      Function.update_self _ _ _
    rw [hplace, Option.some.injEq] at hm
    rw [← hm, dropLast_childPlace] at hbehind
    have hlength := congrArg List.length hbehind
    rw [childPlace, List.length_append, List.length_singleton] at hlength
    omega
  · have hplace : (h.graft i hnode).place j = t.place j := Function.update_of_ne hj _ _
    rw [hplace] at hm
    obtain ⟨k, hk⟩ := t.exists_prefix hm (childPlace_ne_nil l port)
      (hbehind ▸ List.dropLast_prefix m)
    exact h.free k hk

/-- The hubs of other devices are still there. -/
theorem GivenSlot.graft {m : List Nat} {slot : SlotContext} (hgiven : GivenSlot t x m slot)
    (h : FreePlace t l port) (hnode : t.place i = none)
    (hothers : ∀ j, j ≠ i → x'.usbDevContext j = x.usbDevContext j) :
    GivenSlot (h.graft i hnode) x' m slot := by
  obtain ⟨port', deviceSpeed, hchild, hslot⟩ := hgiven
  refine ⟨port', deviceSpeed, hchild, ?_⟩
  rcases hslot with hslot | ⟨hstring, j, hj, hslot⟩
  · exact .inl hslot
  · have hne : j ≠ i := by
      rintro rfl
      rw [hnode] at hj
      cases hj
    exact .inr ⟨hstring, j, (Function.update_of_ne hne _ _).trans hj,
      by rw [hothers j hne, hslot]⟩

/-- The controller has no slot context of the new device yet. -/
theorem ContextsAt.graft (hcontexts : ContextsAt t x) (h : FreePlace t l port)
    (hnode : t.place i = none) (hnew : NewEntry x x' i l port) :
    ContextsAt (h.graft i hnode) x' := by
  intro j m hm
  by_cases hj : j = i
  · subst hj
    exact .inl hnew.outputSlot
  · have hplace : (h.graft i hnode).place j = t.place j := Function.update_of_ne hj _ _
    rw [hplace] at hm
    rw [hnew.others j hj]
    rcases hcontexts j m hm with hnone | ⟨slot, a, hgiven, hcopy⟩
    · exact .inl hnone
    · exact .inr ⟨slot, a, hgiven.graft h hnode hnew.others, hcopy⟩

/-- The hub of the new device is found. -/
theorem SlotsAt.inputSlot (hinv : SlotsAt t x) (h : FreePlace t l port)
    (hnode : t.place i = none) {y : XhcSlots} (hy : SlotsAt (h.graft i hnode) y)
    (hothers : ∀ j, j ≠ i → y.usbDevContext j = x.usbDevContext j) (deviceSpeed : UsbSpeed) :
    ∃ slot, y.inputSlot (routeOf l) port (routeOf (childPlace l port)) deviceSpeed = some slot ∧
      GivenSlot t x (childPlace l port) slot := by
  have hchild : childPlace l port = childPlace (childPlace l port).dropLast port := by
    rw [dropLast_childPlace]
  unfold XhcSlots.inputSlot
  by_cases hstring : (routeOf (childPlace l port)).routeString ≠ 0
  · have hne : l ≠ [] := by
      rintro rfl
      exact hstring rfl
    obtain ⟨j, hj⟩ := h.slot hne
    have hother : j ≠ i := by
      rintro rfl
      rw [hnode] at hj
      cases hj
    have hsame : (h.graft i hnode).place j = some l :=
      (Function.update_of_ne hother _ _).trans hj
    have hpos : j ≠ 0 := by
      obtain ⟨n, _, hn⟩ := List.mem_map.mp (hinv.entry hj).mem
      omega
    simp only [if_pos hstring, hy.routeToSlotId hsame, if_neg hpos]
    refine ⟨_, rfl, port, deviceSpeed, hchild, .inr ⟨hstring, j, ?_, ?_⟩⟩
    · rw [dropLast_childPlace, hj]
    · rw [hothers j hother]
      rfl
  · simp only [if_neg hstring]
    exact ⟨_, rfl, port, deviceSpeed, hchild, .inl ⟨Classical.not_not.mp hstring, rfl⟩⟩

theorem ownCount_new (inputContext outputContext ring ringSeg0 : Nat) (c : UsbDevContext)
    (hinput : c.inputContext = some inputContext) (houtput : c.outputContext = some outputContext)
    (hrings : c.endpointTransferRing = (List.replicate 31 none).set 0 (some ⟨ring, ringSeg0⟩))
    (hconf : c.confDesc = []) (halt : c.activeAlternateSetting = none) (a : Nat) :
    c.ownCount a = [ringSeg0, ring, inputContext, outputContext].count a := by
  unfold UsbDevContext.ownCount
  rw [hinput, houtput, hrings, hconf, halt]
  show [ringSeg0, ring].count a + ([] : List Nat).count a + ([] : List Nat).count a +
    [inputContext].count a + [outputContext].count a = _
  rw [List.count_nil, Nat.add_zero, ← List.count_append, ← List.count_append]
  rfl

/-- A slot that has been enabled gets its contexts and its ring. -/
theorem prepareSlot_inv (hinv : SlotsInv t x) (h : FreePlace t l port) (hnode : t.place i = none)
    (hindex : i ∈ slotIndices) (hheld : heldSlots x.commands i = true) (deviceSpeed : UsbSpeed) :
    ∃ input x', x.prepareSlot i (routeOf l) port (routeOf (childPlace l port)) deviceSpeed =
        some (input, x') ∧
      x'.commands = x.commands ∧ SlotsInv (h.graft i hnode) x' ∧
        GivenSlot (h.graft i hnode) x' (childPlace l port) input.slot := by
  have hdead : x.isLive i = false := by
    rw [Bool.eq_false_iff]
    intro hlive
    obtain ⟨m, hm⟩ := (hinv.tree.live_iff i).mp hlive
    rw [hnode] at hm
    cases hm
  -- The entry is enabled before the hub is looked up.
  obtain ⟨y, hy⟩ : ∃ y, y = XhcSlots.modify i (fun _ =>
      { enabled := true
        slotId := i
        routeString := routeOf (childPlace l port)
        parentRouteString := routeOf l }) x := ⟨_, rfl⟩
  have hnew : NewEntry x y i l port := hy ▸ newEntry_modify x i l port
  have henabled := hinv.tree.graft h hnode hindex hnew.allocate hheld
  obtain ⟨slot, hslot, hgiven⟩ :=
    hinv.tree.inputSlot h hnode henabled hnew.allocate.others deviceSpeed
  have hallocates := ((((allocates_refl hinv.memory).allocate hinv.memory).allocate
    hinv.memory).allocate hinv.memory).allocate hinv.memory
  have hfilled := hnew.allocate.allocate.allocate.allocate.fill y.nextAddress (y.nextAddress + 3)
    ⟨y.nextAddress + 1, y.nextAddress + 2⟩ (Function.update y.dcbaa i (some (y.nextAddress + 3)))
  unfold XhcSlots.prepareSlot
  simp only [← hy, hslot]
  refine ⟨_, _, rfl, hfilled.commands, ⟨hinv.tree.graft h hnode hindex hfilled hheld,
    hinv.memory.change (hallocates.changed hinv.memory (i := i) ?_ ?_ ?_ ?_ ?_ ?_ ?_),
    hinv.contexts.graft h hnode hfilled⟩, hgiven.graft h hnode hfilled.others⟩
  · intro j hj
    rw [hy]
    simp [XhcSlots.allocate, XhcSlots.modify, hj]
  · rw [hy]
    rfl
  · rw [hy]
    rfl
  · have hpos : i ≠ 0 := by
      obtain ⟨n, _, hn⟩ := List.mem_map.mp hindex
      omega
    rw [hy]
    simp [XhcSlots.isLive, XhcSlots.allocate, XhcSlots.modify, hpos]
  · rw [hy]
    simp [XhcSlots.allocate, XhcSlots.modify]
  · rw [hy]
    simp [XhcSlots.allocate, XhcSlots.modify]
  · intro a
    rw [ownCount_new y.nextAddress (y.nextAddress + 3) (y.nextAddress + 1) (y.nextAddress + 2)]
    · apply Nat.le_add_left_of_le
      apply count_le_newCount
      · simp
      · rw [hy]
        simp [XhcSlots.allocate, XhcSlots.modify]
        omega
    all_goals
      rw [hy]
      simp [XhcSlots.allocate, XhcSlots.modify]

/-- The controller copies the slot context of a device that has no devices behind it. -/
theorem ContextsAt.address (hcontexts : ContextsAt t x) (hplace : t.place i = some l)
    (hleaf : ∀ j m, t.place j = some m → m.dropLast ≠ l) (hchanged : Changed x x' i)
    {slot : SlotContext} (hgiven : GivenSlot t x l slot) {a : BitVec 8}
    (houtput : (x'.usbDevContext i).outputSlot = { slot with deviceAddress := a }) :
    ContextsAt t x' := by
  have hhub : ∀ {j m slot}, t.place j = some m → GivenSlot t x m slot →
      GivenSlot t x' m slot := by
    rintro j m slot hm ⟨port, deviceSpeed, hchild, hslot⟩
    refine ⟨port, deviceSpeed, hchild, ?_⟩
    rcases hslot with hslot | ⟨hstring, k, hk, hslot⟩
    · exact .inl hslot
    · have hne : k ≠ i := by
        rintro rfl
        rw [hplace, Option.some.injEq] at hk
        exact hleaf j m hm hk.symm
      exact .inr ⟨hstring, k, hk, by rw [(hchanged.others k hne).1, hslot]⟩
  intro j m hm
  by_cases hj : j = i
  · subst hj
    rw [hplace, Option.some.injEq] at hm
    subst hm
    exact .inr ⟨slot, a, hhub hplace hgiven, houtput⟩
  · rw [(hchanged.others j hj).1]
    rcases hcontexts j m hm with hnone | ⟨slot, a, hgiven, hcopy⟩
    · exact .inl hnone
    · exact .inr ⟨slot, a, hhub hm hgiven, hcopy⟩

theorem commands_addressSlot (controller : Controller) (i : Nat) (input : InputContext)
    (x : XhcSlots) :
    ∃ result, (x.addressSlot controller i input).2.commands =
      x.commands ++ [(.addressDevice i, result)] := by
  refine ⟨controller.answer x.commands (.addressDevice i), ?_⟩
  unfold XhcSlots.addressSlot XhcSlots.cmdTransfer
  dsimp only
  split_ifs
  · rfl
  · rfl

/-- Addressing a device changes nothing that belongs to its slot. -/
theorem addressSlot_inv (hinv : SlotsInv t x) (hplace : t.place i = some l)
    (hleaf : ∀ j m, t.place j = some m → m.dropLast ≠ l) {input : InputContext}
    (hgiven : GivenSlot t x l input.slot) :
    SlotsInv t (x.addressSlot controller i input).2 := by
  obtain ⟨result, hresult⟩ :
      ∃ result, result = controller.answer x.commands (.addressDevice i) := ⟨_, rfl⟩
  have hrecord : SlotsInv t { x with
      commands := x.commands ++ [(.addressDevice i, result)] } := by
    apply hinv.record
    intro j m hm
    rw [heldSlots_append]
    exact (hinv.tree.entry hm).held
  unfold XhcSlots.addressSlot XhcSlots.cmdTransfer
  simp only [← hresult]
  split_ifs
  · exact hrecord
  · dsimp only
    obtain ⟨hchanged, hcontext⟩ := (allocates_refl hrecord.memory).modify hrecord hplace
      (f := fun c =>
        { c with
          outputSlot := { input.slot with deviceAddress := result.deviceAddress }
          xhciDevAddr := result.deviceAddress })
      (fun _ => rfl) (fun _ => rfl) (fun _ => rfl) (fun _ => rfl) (fun _ => Nat.le_add_right _ _)
    apply hrecord.change hchanged hplace
    · rw [hcontext]
    · rw [hcontext]
    · rw [hcontext]
    · rfl
    · apply hrecord.contexts.address hplace hleaf hchanged hgiven
      rw [hcontext]

/-- Either the controller gives no slot, or the new device has the one that it gives, addressed
or not. -/
theorem xhcInitializeDeviceSlot_inv (hregular : controller.Regular) (hinv : SlotsInv t x)
    (h : FreePlace t l port) (deviceSpeed : UsbSpeed) :
    ∃ status x' result rest, x.xhcInitializeDeviceSlot controller (routeOf l) port
        (routeOf (childPlace l port)) deviceSpeed = some (status, x') ∧
      x'.commands = x.commands ++ (.enableSlot, result) :: rest ∧
      (∀ command ∈ rest, ∃ i, command.1 = .addressDevice i) ∧
      (result.status.isError = true ∧ SlotsInv t x' ∨
        result.status.isError = false ∧ ∃ hnode : t.place result.slotId = none,
          SlotsInv (h.graft result.slotId hnode) x') := by
  obtain ⟨result, hresult⟩ : ∃ result, result = controller.answer x.commands .enableSlot :=
    ⟨_, rfl⟩
  unfold XhcSlots.xhcInitializeDeviceSlot XhcSlots.cmdTransfer
  simp only [← hresult]
  by_cases hstatus : result.status.isError = true
  · rw [if_pos hstatus]
    refine ⟨_, _, result, [], rfl, rfl, List.forall_mem_nil _, .inl ⟨hstatus, ?_⟩⟩
    apply hinv.record
    intro j m hm
    rw [heldSlots_append, heldAfter, if_pos hstatus]
    exact (hinv.tree.entry hm).held
  · rw [if_neg hstatus]
    have hsuccess : (controller.answer x.commands .enableSlot).status.isError = false := by
      rw [← hresult]
      exact Bool.eq_false_iff.mpr hstatus
    obtain ⟨hpos, hle⟩ := hregular.range x.commands hsuccess
    have hfree := hregular.free x.commands hsuccess
    rw [← hresult] at hpos hle hfree
    have hnumber := hregular.number
    rw [if_neg (by omega)]
    -- The controller gives a slot that no command has enabled before.
    have hnode : t.place result.slotId = none := by
      cases hplace : t.place result.slotId with
      | none => rfl
      | some m =>
          rw [(hinv.tree.entry hplace).held] at hfree
          cases hfree
    have hindex : result.slotId ∈ slotIndices :=
      List.mem_map.mpr ⟨result.slotId - 1, List.mem_range.mpr (by omega), by omega⟩
    have hrecord : SlotsInv t { x with
        commands := x.commands ++ [(.enableSlot, result)] } := by
      apply hinv.record
      intro j m hm
      rw [heldSlots_append, heldAfter, if_neg hstatus]
      by_cases hj : j = result.slotId
      · rw [hj, Function.update_self]
      · rw [Function.update_of_ne hj]
        exact (hinv.tree.entry hm).held
    have hheld : heldSlots (x.commands ++ [(.enableSlot, result)]) result.slotId = true := by
      rw [heldSlots_append, heldAfter, if_neg hstatus, Function.update_self]
    obtain ⟨input, y, hprepare, hcommands, hnew, hgiven⟩ :=
      prepareSlot_inv hrecord h hnode hindex hheld deviceSpeed
    obtain ⟨answer, haddress⟩ := commands_addressSlot controller result.slotId input y
    rw [hprepare]
    refine ⟨_, _, result, [(.addressDevice result.slotId, answer)], rfl, ?_, ?_,
      .inr ⟨Bool.eq_false_iff.mpr hstatus, hnode,
        addressSlot_inv hnew (Function.update_self _ _ _) (h.leaf hnode) hgiven⟩⟩
    · show (y.addressSlot controller result.slotId input).2.commands = _
      rw [haddress, hcommands, List.append_assoc]
      rfl
    · intro command hmem
      rw [List.mem_singleton.mp hmem]
      exact ⟨_, rfl⟩

end Attach

/-! ## The change of a port -/

/-- The port reports a device after a reset. -/
def PortState.attaches (p : PortState) : Bool := p.enable && p.connection && p.resetChange

/-- The command to disable the slot at `m` has failed. -/
def Refused (t : PlaceTree Nat Nat) (given : List (SlotCommand × CmdResult)) (m : List Nat) :
    Prop :=
  ∃ i result, t.place i = some m ∧ (.disableSlot i, result) ∈ given ∧
    result.status.isError = true

/-- What a change of the port `port` of the hub at `l` does to the tree, with these commands. -/
inductive PortChange (t : PlaceTree Nat Nat) (l : List Nat) (port : Nat) (p : PortState)
    (given : List (SlotCommand × CmdResult)) : PlaceTree Nat Nat → Prop
  /-- No change that is handled. -/
  | none (hchanged : p.changed = false) (hgiven : given = []) : PortChange t l port p given t
  /-- Everything behind the port is gone, and the device at it unless its command has failed.
  The port reports no new device, or the controller has no slot for it. -/
  | detach (failed : Bool) (hchanged : p.changed = true)
      (hfailed : failed = true ↔ Refused t given (childPlace l port))
      (henable : ∀ result, (.enableSlot, result) ∈ given → result.status.isError = true)
      (hstate : p.attaches = true → failed = false → ∃ result, (.enableSlot, result) ∈ given) :
      PortChange t l port p given
        (t.prune (Gone failed (childPlace l port)) (gone_mono failed (childPlace l port)))
  /-- All that is gone, and a new device is at the port, in the slot that has been enabled. -/
  | attach {i : Nat}
      (h : FreePlace (t.prune (AtOrBehind (childPlace l port))
        (atOrBehind_mono (childPlace l port))) l port)
      (hnode : (t.prune (AtOrBehind (childPlace l port))
        (atOrBehind_mono (childPlace l port))).place i = Option.none)
      (hfailed : ¬ Refused t given (childPlace l port))
      (henable : ∃ result, (.enableSlot, result) ∈ given ∧ result.status.isError = false ∧
        result.slotId = i)
      (hstate : p.attaches = true) : PortChange t l port p given (h.graft i hnode)

section PortChange

variable {controller : Controller} {t : PlaceTree Nat Nat} {x : XhcSlots} {port left : Nat}
  {l : List Nat}

/-- The hub of a port is not behind it. -/
theorem not_prefix_childPlace (l : List Nat) (port : Nat) : ¬ childPlace l port <+: l := by
  intro hpre
  have hle := hpre.length_le
  unfold childPlace at hle
  rw [List.length_append, List.length_singleton] at hle
  omega

/-- When the port has been pruned, a device at it has a free place. -/
theorem freePlace_prune (hhub : l ≠ [] → ∃ j, t.place j = some l) (hl : IsPlace l)
    (hdepth : l.length ≤ 5) (hroot : l = [] → port < 255) :
    FreePlace (t.prune (AtOrBehind (childPlace l port)) (atOrBehind_mono (childPlace l port))) l
      port where
  hub := hl
  depth := hdepth
  root := hroot
  slot hne := by
    obtain ⟨j, hj⟩ := hhub hne
    exact ⟨j, (t.prune_place _ _).mpr ⟨hj, not_prefix_childPlace l port⟩⟩
  free j hj := ((t.prune_place _ _).mp hj).2 List.prefix_rfl

/-- The first half: what is at the port and behind it is disabled. -/
theorem disableRoute_inv (controller : Controller) (hinv : SlotsInv t x)
    (hchild : IsPlace (childPlace l port)) (hleft : 6 ≤ left) :
    ∃ status x' failed given,
      x.disableRoute controller left (routeOf (childPlace l port)) = some (status, x') ∧
      x'.commands = x.commands ++ given ∧
      (∀ command ∈ given, ∃ i, command.1 = .disableSlot i) ∧
      (failed = true ↔ Refused t given (childPlace l port)) ∧
      SlotsInv (t.prune (Gone failed (childPlace l port)) (gone_mono failed (childPlace l port)))
        x' := by
  unfold XhcSlots.disableRoute
  by_cases hnone : ∀ j, t.place j ≠ some (childPlace l port)
  · rw [hinv.tree.routeToSlotId_eq_zero hchild hnone]
    refine ⟨_, x, false, [], rfl, (List.append_nil _).symm, List.forall_mem_nil _, ?_, ?_⟩
    · constructor
      · intro h
        cases h
      · rintro ⟨i, _, hi, _⟩
        exact absurd hi (hnone i)
    · rw [t.prune_eq_self]
      · exact hinv
      · rintro i m hm ⟨hpre, _⟩
        obtain ⟨j, hj⟩ := t.exists_prefix hm (childPlace_ne_nil l port) hpre
        exact hnone j hj
  · obtain ⟨i, hi⟩ := Classical.not_forall_not.mp hnone
    have hpos : i ≠ 0 := by
      obtain ⟨n, _, hn⟩ := List.mem_map.mp (hinv.tree.entry hi).mem
      omega
    obtain ⟨status, x', hrun, hdisables⟩ := xhcDisableSlotCmd_place controller hinv hi hleft
    obtain ⟨given, slots, horders⟩ := hdisables.clears.orders
    obtain ⟨result, hstatus, hown⟩ := hdisables.own given horders.commands
    rw [hinv.tree.routeToSlotId hi]
    simp only [if_pos hpos]
    refine ⟨status, x', status.isError, given, hrun, horders.commands, ?_, ?_, hdisables.inv⟩
    · intro command hmem
      have hcommand := List.mem_map_of_mem (f := Prod.fst) hmem
      rw [horders.map_eq] at hcommand
      obtain ⟨j, _, hj⟩ := List.mem_map.mp hcommand
      exact ⟨j, hj.symm⟩
    · constructor
      · intro hfailed
        exact ⟨i, result, hi, (hown result).mpr rfl, hstatus ▸ hfailed⟩
      · rintro ⟨j, result', hj, hmem, hfailed⟩
        rw [t.unique hj hi, hown] at hmem
        rw [← hstatus, ← hmem]
        exact hfailed

/-- A disabled port is looked up without success exactly if its slot is gone. -/
theorem routeToSlotId_pruned {failed : Bool} (hchild : IsPlace (childPlace l port))
    (hfailed : failed = true → ∃ j, t.place j = some (childPlace l port))
    (hpruned : SlotsInv
      (t.prune (Gone failed (childPlace l port)) (gone_mono failed (childPlace l port))) x) :
    x.xhcRouteStringToSlotId (routeOf (childPlace l port)) = 0 ↔ failed = false := by
  constructor
  · intro hzero
    rw [Bool.eq_false_iff]
    intro hfails
    obtain ⟨j, hj⟩ := hfailed hfails
    have hstays : (t.prune (Gone failed (childPlace l port)) (gone_mono _ _)).place j =
        some (childPlace l port) :=
      (t.prune_place _ _).mpr ⟨hj, fun hgone => hgone.2 hfails rfl⟩
    rw [hpruned.tree.routeToSlotId hstays] at hzero
    obtain ⟨n, _, hn⟩ := List.mem_map.mp (hpruned.tree.entry hstays).mem
    omega
  · intro hdone
    apply hpruned.tree.routeToSlotId_eq_zero hchild
    intro j hj
    apply ((t.prune_place _ _).mp hj).2
    exact (gone_iff_of_success hdone _ _).mpr List.prefix_rfl

section commands

variable {given rest : List (SlotCommand × CmdResult)} {result : CmdResult}

/-- After commands to disable slots and before one to address a device, one slot is enabled. -/
theorem mem_enableSlot_iff (hgiven : ∀ command ∈ given, ∃ i, command.1 = .disableSlot i)
    (hrest : ∀ command ∈ rest, ∃ i, command.1 = .addressDevice i) {answer : CmdResult} :
    (SlotCommand.enableSlot, answer) ∈ given ++ (.enableSlot, result) :: rest ↔
      answer = result := by
  constructor
  · intro hmem
    rcases List.mem_append.mp hmem with hmem | hmem
    · obtain ⟨_, hcommand⟩ := hgiven _ hmem
      cases hcommand
    · rcases List.mem_cons.mp hmem with hsame | hmem
      · cases hsame
        rfl
      · obtain ⟨_, hcommand⟩ := hrest _ hmem
        cases hcommand
  · rintro rfl
    exact List.mem_append_right _ List.mem_cons_self

/-- Those commands refuse no slot that has not been refused before. -/
theorem refused_append_iff (hrest : ∀ command ∈ rest, ∃ i, command.1 = .addressDevice i)
    {m : List Nat} :
    Refused t (given ++ (.enableSlot, result) :: rest) m ↔ Refused t given m := by
  constructor
  · rintro ⟨i, answer, hi, hmem, herror⟩
    rcases List.mem_append.mp hmem with hmem | hmem
    · exact ⟨i, answer, hi, hmem, herror⟩
    · rcases List.mem_cons.mp hmem with hsame | hmem
      · cases hsame
      · obtain ⟨_, hcommand⟩ := hrest _ hmem
        cases hcommand
  · rintro ⟨i, answer, hi, hmem, herror⟩
    exact ⟨i, answer, hi, List.mem_append_left _ hmem, herror⟩

/-- A new device at a port whose slot and whose subtree are gone. -/
theorem attach_inv (hregular : controller.Regular) {p : PortState}
    (hplace : FreePlace (t.prune (AtOrBehind (childPlace l port))
      (atOrBehind_mono (childPlace l port))) l port)
    (hinv : SlotsInv (t.prune (Gone false (childPlace l port))
      (gone_mono false (childPlace l port))) x)
    (hgiven : ∀ command ∈ given, ∃ i, command.1 = .disableSlot i)
    (hrefused : ¬ Refused t given (childPlace l port)) (hchanged : p.changed = true)
    (hattaches : p.attaches = true) :
    ∃ status x' t' more, x.xhcInitializeDeviceSlot controller (routeOf l) port
        (routeOf (childPlace l port)) p.speed = some (status, x') ∧
      x'.commands = x.commands ++ more ∧ SlotsInv t' x' ∧
        PortChange t l port p (given ++ more) t' := by
  have heq : t.prune (Gone false (childPlace l port)) (gone_mono false _) =
      t.prune (AtOrBehind (childPlace l port)) (atOrBehind_mono _) :=
    t.prune_congr _ fun _ m _ => gone_iff_of_success rfl _ m
  rw [heq] at hinv
  obtain ⟨status, x', result, rest, hinit, hmore, haddress, hresult⟩ :=
    xhcInitializeDeviceSlot_inv hregular hinv hplace p.speed
  have hnone : ¬ Refused t (given ++ (.enableSlot, result) :: rest) (childPlace l port) := fun h =>
    hrefused ((refused_append_iff haddress).mp h)
  have hgave : (SlotCommand.enableSlot, result) ∈ given ++ (.enableSlot, result) :: rest :=
    (mem_enableSlot_iff hgiven haddress).mpr rfl
  refine ⟨status, x', ?_⟩
  rcases hresult with ⟨herror, hsame⟩ | ⟨hsuccess, hnode, hnew⟩
  · -- The controller has no slot.
    refine ⟨_, _, hinit, hmore, hsame, ?_⟩
    rw [← heq]
    refine .detach false hchanged ?_ (fun answer hmem => ?_) fun _ _ => ⟨result, hgave⟩
    · exact iff_of_false Bool.false_ne_true hnone
    · rw [(mem_enableSlot_iff hgiven haddress).mp hmem]
      exact herror
  · exact ⟨_, _, hinit, hmore, hnew,
      .attach hplace hnode hnone ⟨result, hgave, hsuccess, rfl⟩ hattaches⟩

end commands

/-- A port change is handled without an invalid free and without a failing assertion, and does
to the tree what it is to do. -/
theorem xhcPollPortStatusChange_inv (hregular : controller.Regular) (hinv : SlotsInv t x)
    (hhub : l ≠ [] → ∃ j, t.place j = some l) (hl : IsPlace l) (hdepth : l.length ≤ 5)
    (hroot : l = [] → port < 255) (hleft : 6 ≤ left) (p : PortState) :
    ∃ status x' t' given, x.xhcPollPortStatusChange controller left (routeOf l) port p =
        some (status, x') ∧
      x'.commands = x.commands ++ given ∧ SlotsInv t' x' ∧ PortChange t l port p given t' := by
  unfold XhcSlots.xhcPollPortStatusChange
  by_cases hchanged : p.changed = true
  · have hchild := isPlace_child hl hdepth hroot
    obtain ⟨status, y, failed, given, hdisable, hcommands, honly, hfailed, hpruned⟩ :=
      disableRoute_inv controller hinv hchild hleft
    have hfound : y.xhcRouteStringToSlotId (routeOf (childPlace l port)) = 0 ↔ failed = false := by
      apply routeToSlotId_pruned hchild _ hpruned
      intro hfails
      obtain ⟨j, _, hj, _⟩ := hfailed.mp hfails
      exact ⟨j, hj⟩
    rw [if_neg (by simpa using hchanged), routeChart_routeOf hl hdepth, hdisable]
    -- Without a new device only the port is pruned.
    have hstay : (p.attaches = true → failed = true) →
        ∃ status' x' t' given', some (status, y) = some (status', x') ∧
          x'.commands = x.commands ++ given' ∧ SlotsInv t' x' ∧
            PortChange t l port p given' t' := by
      intro hstate
      refine ⟨status, y, _, given, rfl, hcommands, hpruned, .detach failed hchanged hfailed ?_ ?_⟩
      · intro result hmem
        obtain ⟨_, hcommand⟩ := honly _ hmem
        cases hcommand
      · intro hattaches hdone
        rw [hstate hattaches] at hdone
        cases hdone
    unfold XhcSlots.attach
    simp only
    split_ifs with hpresent hattach
    · obtain ⟨hzero, hreset⟩ := hattach
      obtain rfl := hfound.mp hzero
      have hattaches : p.attaches = true := by
        unfold PortState.attaches
        rw [hpresent, hreset]
        rfl
      obtain ⟨status', x', t', more, hinit, hmore, hnew, hchange⟩ :=
        attach_inv hregular (freePlace_prune hhub hl hdepth hroot) hpruned honly
          (fun h => Bool.false_ne_true (hfailed.mpr h)) hchanged hattaches
      rw [hcommands, List.append_assoc] at hmore
      exact ⟨status', x', t', _, hinit, hmore, hnew, hchange⟩
    · apply hstay
      intro hattaches
      -- The slot at the port is still found.
      by_contra hdone
      rw [Bool.not_eq_true] at hdone
      unfold PortState.attaches at hattaches
      rw [Bool.and_eq_true] at hattaches
      exact hattach ⟨hfound.mpr hdone, hattaches.2⟩
    · apply hstay
      intro hattaches
      unfold PortState.attaches at hattaches
      rw [Bool.and_eq_true] at hattaches
      exact absurd hattaches.1 hpresent
  · rw [if_pos (by simpa using hchanged)]
    exact ⟨_, x, t, [], rfl, (List.append_nil _).symm, hinv,
      .none (Bool.eq_false_iff.mpr hchanged) rfl⟩

end PortChange

end XhciDxe
end EfiApps
