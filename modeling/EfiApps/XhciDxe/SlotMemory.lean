import EfiApps.XhciDxe.DisableSlot

/-!
# What belongs to a slot

The requests to a device allocate rings and copies of descriptors for its slot, and free rings
that are no longer needed.  Each keeps what belongs to the slots apart.
-/

namespace EfiApps
namespace XhciDxe

open PciMisc (EfiStatus)

/-! ## Lists of what belongs to a slot -/

section Counts

variable {α : Type _} {f : α → List Nat} {L : List α} {k : Nat}

/-- An entry of a list is replaced. -/
theorem count_flatMap_set (hk : k < L.length) (v : α) (a : Nat) :
    ((L.set k v).flatMap f).count a + (f L[k]).count a = (L.flatMap f).count a + (f v).count a := by
  induction L generalizing k with
  | nil => cases hk
  | cons b L ih =>
      cases k with
      | zero =>
          simp only [List.set_cons_zero, List.flatMap_cons, List.count_append,
            List.getElem_cons_zero]
          omega
      | succ k =>
          have hrest := ih (Nat.lt_of_succ_lt_succ hk)
          simp only [List.set_cons_succ, List.flatMap_cons, List.count_append,
            List.getElem_cons_succ]
          omega

theorem count_flatMap_set_le (v : α) (a : Nat) :
    ((L.set k v).flatMap f).count a ≤ (L.flatMap f).count a + (f v).count a := by
  by_cases hk : k < L.length
  · have hset := count_flatMap_set (f := f) hk v a
    omega
  · rw [List.set_eq_of_length_le (Nat.le_of_not_lt hk)]
    exact Nat.le_add_right _ _

end Counts

/-- How often an address belongs to a slot. -/
def UsbDevContext.ownCount (c : UsbDevContext) (a : Nat) : Nat :=
  (c.endpointTransferRing.flatMap fun r => r.toList.flatMap RingPtr.owned).count a +
    (c.confDesc.flatMap Option.toList).count a + c.activeAlternateSetting.toList.count a +
      c.inputContext.toList.count a + c.outputContext.toList.count a

theorem count_owned (c : UsbDevContext) (a : Nat) : c.owned.count a = c.ownCount a := by
  unfold UsbDevContext.owned UsbDevContext.ownCount
  simp only [List.count_append]

theorem mem_owned_iff {c : UsbDevContext} {a : Nat} : a ∈ c.owned ↔ 0 < c.ownCount a := by
  rw [← List.count_pos_iff, count_owned]

theorem nodup_owned_iff {c : UsbDevContext} : c.owned.Nodup ↔ ∀ a, c.ownCount a ≤ 1 := by
  rw [List.nodup_iff_count_le_one]
  simp only [count_owned]

/-! ## A slot has more, or less -/

/-- What belongs to the slot `i` was its own before, or is new. -/
structure Changed (x x' : XhcSlots) (i : Nat) : Prop where
  others : ∀ j, j ≠ i → x'.usbDevContext j = x.usbDevContext j ∧ x'.dcbaa j = x.dcbaa j
  next : x.nextAddress ≤ x'.nextAddress
  fresh : ∀ a ∈ x'.allocated, a < x'.nextAddress
  once : x'.allocated.Nodup
  kept : ∀ a ∈ x.allocated, a ∈ x'.allocated ∨ x.isLive i = true ∧ a ∈ (x.usbDevContext i).owned
  live : x'.isLive i = true
  owned : ∀ a ∈ (x'.usbDevContext i).owned, a ∈ x'.allocated ∧
    (x.nextAddress ≤ a ∨ x.isLive i = true ∧ a ∈ (x.usbDevContext i).owned)
  nodup : (x'.usbDevContext i).owned.Nodup
  output : x'.dcbaa i = (x'.usbDevContext i).outputContext
  rings : (x'.usbDevContext i).endpointTransferRing.length = 31

section Changed

variable {t : PlaceTree Nat Nat} {x x' : XhcSlots} {i : Nat}

theorem Changed.isLive (h : Changed x x' i) {j : Nat} (hj : x'.isLive j = true) :
    j = i ∨ x.isLive j = true ∧ j ≠ i := by
  by_cases hsame : j = i
  · exact .inl hsame
  · refine .inr ⟨?_, hsame⟩
    unfold XhcSlots.isLive at hj ⊢
    rwa [(h.others j hsame).1] at hj

/-- What belongs to another slot does not belong to the slot `i`. -/
theorem Changed.other_not_mem (h : Changed x x' i) (hinv : OwnsApart x) {j a : Nat}
    (hj : x.isLive j = true) (hne : j ≠ i) (ha : a ∈ (x.usbDevContext j).owned) :
    a ∉ (x'.usbDevContext i).owned := by
  intro hown
  rcases (h.owned a hown).2 with hnew | ⟨hlive, hold⟩
  · have hlt := hinv.fresh a (hinv.allocated j hj a ha)
    omega
  · exact hne (hinv.apart j i a hj hlive ha hold)

theorem OwnsApart.change (hinv : OwnsApart x) (h : Changed x x' i) : OwnsApart x' where
  nodup j hj := by
    rcases h.isLive hj with rfl | ⟨hj, hne⟩
    · exact h.nodup
    · rw [(h.others j hne).1]
      exact hinv.nodup j hj
  allocated j hj a ha := by
    rcases h.isLive hj with rfl | ⟨hj, hne⟩
    · exact (h.owned a ha).1
    · rw [(h.others j hne).1] at ha
      rcases h.kept a (hinv.allocated j hj a ha) with hkept | ⟨hlive, hown⟩
      · exact hkept
      · exact absurd (hinv.apart j i a hj hlive ha hown) hne
  apart j k a hj hk ha ha' := by
    rcases h.isLive hj with rfl | ⟨hj, hne⟩ <;> rcases h.isLive hk with rfl | ⟨hk, hne'⟩
    · rfl
    · rw [(h.others k hne').1] at ha'
      exact absurd ha (h.other_not_mem hinv hk hne' ha')
    · rw [(h.others j hne).1] at ha
      exact absurd ha' (h.other_not_mem hinv hj hne ha)
    · rw [(h.others j hne).1] at ha
      rw [(h.others k hne').1] at ha'
      exact hinv.apart j k a hj hk ha ha'
  dcbaa j a hentry := by
    by_cases hj : j = i
    · subst hj
      rw [h.output] at hentry
      have hown : a ∈ (x'.usbDevContext j).owned := by
        unfold UsbDevContext.owned
        rw [hentry]
        exact List.mem_append_right _ List.mem_cons_self
      refine ⟨(h.owned a hown).1, ?_⟩
      intro k hk ha
      rcases h.isLive hk with rfl | ⟨hk, hne⟩
      · rfl
      · rw [(h.others k hne).1] at ha
        exact absurd hown (h.other_not_mem hinv hk hne ha)
    · rw [(h.others j hj).2] at hentry
      obtain ⟨hmem, honly⟩ := hinv.dcbaa j a hentry
      constructor
      · rcases h.kept a hmem with hkept | ⟨hlive, hown⟩
        · exact hkept
        · exact absurd (honly i hlive hown).symm hj
      · intro k hk ha
        rcases h.isLive hk with rfl | ⟨hk, hne⟩
        · rcases (h.owned a ha).2 with hnew | ⟨hlive, hown⟩
          -- An address in the DCBAA is no new one.
          · have hlt := hinv.fresh a hmem
            omega
          · exact honly k hlive hown
        · rw [(h.others k hne).1] at ha
          exact honly k hk ha
  output j hj := by
    rcases h.isLive hj with rfl | ⟨hj, hne⟩
    · exact h.output
    · rw [(h.others j hne).1, (h.others j hne).2]
      exact hinv.output j hj
  rings j hj := by
    rcases h.isLive hj with rfl | ⟨hj, hne⟩
    · exact h.rings
    · rw [(h.others j hne).1]
      exact hinv.rings j hj
  fresh := h.fresh
  once := h.once

/-- A change that leaves a slot of a device where it is. -/
theorem SlotsInv.change (hinv : SlotsInv t x) (h : Changed x x' i) {l : List Nat}
    (hplace : t.place i = some l)
    (hslotId : (x'.usbDevContext i).slotId = (x.usbDevContext i).slotId)
    (hroute : (x'.usbDevContext i).routeString = (x.usbDevContext i).routeString)
    (hparent : (x'.usbDevContext i).parentRouteString = (x.usbDevContext i).parentRouteString)
    (hcommands : x'.commands = x.commands) (hcontexts : ContextsAt t x') : SlotsInv t x' where
  tree :=
    { live_iff := by
        intro j
        rw [← hinv.tree.live_iff]
        by_cases hj : j = i
        · subst hj
          have hlive := (hinv.tree.live_iff j).mpr ⟨l, hplace⟩
          rw [h.live, hlive]
        · unfold XhcSlots.isLive
          rw [(h.others j hj).1]
      entry := by
        intro j m hm
        have hentry := hinv.tree.entry hm
        by_cases hj : j = i
        · subst hj
          exact
            { slotId := by rw [hslotId, hentry.slotId]
              mem := hentry.mem
              isPlace := hentry.isPlace
              route := by rw [hroute, hentry.route]
              parent := by rw [hparent, hentry.parent]
              held := by rw [hcommands, hentry.held] }
        · have hsame := (h.others j hj).1
          exact
            { slotId := by rw [hsame, hentry.slotId]
              mem := hentry.mem
              isPlace := hentry.isPlace
              route := by rw [hsame, hentry.route]
              parent := by rw [hsame, hentry.parent]
              held := by rw [hcommands, hentry.held] } }
  memory := hinv.memory.change h
  contexts := hcontexts

theorem ContextsAt.change (hcontexts : ContextsAt t x) (h : Changed x x' i)
    (houtputSlot : (x'.usbDevContext i).outputSlot = (x.usbDevContext i).outputSlot) :
    ContextsAt t x' := by
  apply hcontexts.frame
  intro j m hm
  by_cases hj : j = i
  · subst hj
    exact ⟨hm, houtputSlot⟩
  · rw [(h.others j hj).1]
    exact ⟨hm, rfl⟩

end Changed

/-! ## Allocations -/

section Allocations

variable {x y x' : XhcSlots} {i : Nat}

/-- Addresses have been allocated, and nothing else has changed. -/
structure Allocates (x y : XhcSlots) : Prop where
  contexts : y.usbDevContext = x.usbDevContext
  dcbaa : y.dcbaa = x.dcbaa
  commands : y.commands = x.commands
  next : x.nextAddress ≤ y.nextAddress
  mem : ∀ a, a ∈ y.allocated ↔ a ∈ x.allocated ∨ x.nextAddress ≤ a ∧ a < y.nextAddress
  once : y.allocated.Nodup

theorem allocates_refl (h : OwnsApart x) : Allocates x x where
  contexts := rfl
  dcbaa := rfl
  commands := rfl
  next := Nat.le_refl _
  mem a := by
    constructor
    · exact .inl
    · rintro (hmem | ⟨hle, hlt⟩)
      · exact hmem
      · omega
  once := h.once

theorem Allocates.allocate (h : Allocates x y) (hinv : OwnsApart x) :
    Allocates x y.allocate.2 where
  contexts := h.contexts
  dcbaa := h.dcbaa
  commands := h.commands
  next := Nat.le_succ_of_le h.next
  mem a := by
    show a ∈ y.nextAddress :: y.allocated ↔ _ ∨ _ ∧ a < y.nextAddress + 1
    have hnext := h.next
    rw [List.mem_cons, h.mem]
    constructor
    · rintro (rfl | hold | ⟨hle, hlt⟩)
      · exact .inr ⟨hnext, Nat.lt_succ_self _⟩
      · exact .inl hold
      · exact .inr ⟨hle, by omega⟩
    · rintro (hold | ⟨hle, hlt⟩)
      · exact .inr (.inl hold)
      · by_cases hsame : a = y.nextAddress
        · exact .inl hsame
        · exact .inr (.inr ⟨hle, by omega⟩)
  once := by
    refine List.nodup_cons.mpr ⟨?_, h.once⟩
    rw [h.mem]
    rintro (hold | ⟨_, hlt⟩)
    · have hlt := hinv.fresh _ hold
      have hnext := h.next
      omega
    · omega

/-- How often an address belongs to an entry, if it is used. -/
def baseCount (x : XhcSlots) (i a : Nat) : Nat :=
  if x.isLive i then (x.usbDevContext i).ownCount a else 0

/-- Whether an address is a new one. -/
def newCount (x y : XhcSlots) (a : Nat) : Nat :=
  if x.nextAddress ≤ a ∧ a < y.nextAddress then 1 else 0

theorem count_le_newCount {addresses : List Nat} (hnodup : addresses.Nodup)
    (hrange : ∀ a ∈ addresses, x.nextAddress ≤ a ∧ a < y.nextAddress) (a : Nat) :
    addresses.count a ≤ newCount x y a := by
  unfold newCount
  split_ifs with hnew
  · exact List.nodup_iff_count_le_one.mp hnodup a
  · exact Nat.le_of_eq (List.count_eq_zero.mpr fun hmem => hnew (hrange a hmem))

theorem OwnsApart.baseCount_le (h : OwnsApart x) (i a : Nat) : baseCount x i a ≤ 1 := by
  unfold baseCount
  split_ifs with hlive
  · exact nodup_owned_iff.mp (h.nodup i hlive) a
  · exact Nat.zero_le _

theorem OwnsApart.baseCount_eq_zero (h : OwnsApart x) (i : Nat) {a : Nat}
    (ha : x.nextAddress ≤ a) : baseCount x i a = 0 := by
  unfold baseCount
  split_ifs with hlive
  · by_contra hne
    have hmem := h.allocated i hlive a (mem_owned_iff.mpr (Nat.pos_of_ne_zero hne))
    have hlt := h.fresh a hmem
    omega
  · rfl

/-- Some of what has been allocated comes to belong to the slot `i`. -/
theorem Allocates.changed (h : Allocates x y) (hinv : OwnsApart x)
    (hothers : ∀ j, j ≠ i → x'.usbDevContext j = y.usbDevContext j ∧ x'.dcbaa j = y.dcbaa j)
    (hallocated : x'.allocated = y.allocated) (hnext : x'.nextAddress = y.nextAddress)
    (hlive : x'.isLive i = true) (houtput : x'.dcbaa i = (x'.usbDevContext i).outputContext)
    (hrings : (x'.usbDevContext i).endpointTransferRing.length = 31)
    (hown : ∀ a, (x'.usbDevContext i).ownCount a ≤ baseCount x i a + newCount x y a) :
    Changed x x' i where
  others j hj := by
    rw [← h.contexts, ← h.dcbaa]
    exact hothers j hj
  next := by
    rw [hnext]
    exact h.next
  fresh a ha := by
    rw [hallocated, h.mem] at ha
    rw [hnext]
    rcases ha with hold | ⟨_, hlt⟩
    · exact Nat.lt_of_lt_of_le (hinv.fresh a hold) h.next
    · exact hlt
  once := by
    rw [hallocated]
    exact h.once
  kept a ha := by
    rw [hallocated, h.mem]
    exact .inl (.inl ha)
  live := hlive
  owned a ha := by
    rw [mem_owned_iff] at ha
    have hle := hown a
    rw [hallocated, h.mem]
    -- What belongs to the slot has belonged to it before, or is new.
    by_cases hbase : 0 < baseCount x i a
    · unfold baseCount at hbase
      split_ifs at hbase with hold
      · have hmem := mem_owned_iff.mpr hbase
        exact ⟨.inl (hinv.allocated i hold a hmem), .inr ⟨hold, hmem⟩⟩
      · exact absurd hbase (Nat.lt_irrefl 0)
    · have hnew : 0 < newCount x y a := by omega
      unfold newCount at hnew
      split_ifs at hnew with hrange
      · exact ⟨.inr hrange, .inl hrange.1⟩
      · exact absurd hnew (Nat.lt_irrefl 0)
  nodup := by
    rw [nodup_owned_iff]
    intro a
    have hle := hown a
    have hbase := hinv.baseCount_le i a
    unfold newCount at hle
    split_ifs at hle with hrange
    · rw [hinv.baseCount_eq_zero i hrange.1] at hle
      exact hle
    · exact hle.trans hbase
  output := houtput
  rings := hrings

end Allocations

/-! ## What is only written down -/

section Same

variable {t : PlaceTree Nat Nat} {x x' : XhcSlots}

/-- An entry without what a request only writes down. -/
def UsbDevContext.core (c : UsbDevContext) : UsbDevContext :=
  { c with busDevAddr := 0, activeConfiguration := 0 }

/-- Nothing has changed but that, and the bytes of what is allocated. -/
structure SameDevices (x x' : XhcSlots) : Prop where
  core : ∀ j, (x'.usbDevContext j).core = (x.usbDevContext j).core
  dcbaa : x'.dcbaa = x.dcbaa
  allocated : x'.allocated = x.allocated
  next : x'.nextAddress = x.nextAddress
  commands : x'.commands = x.commands

theorem SameDevices.trans {y : XhcSlots} (h : SameDevices x x') (h' : SameDevices x' y) :
    SameDevices x y where
  core j := (h'.core j).trans (h.core j)
  dcbaa := h'.dcbaa.trans h.dcbaa
  allocated := h'.allocated.trans h.allocated
  next := h'.next.trans h.next
  commands := h'.commands.trans h.commands

theorem sameDevices_modify (x : XhcSlots) (i : Nat) {f : UsbDevContext → UsbDevContext}
    (hf : ∀ c, (f c).core = c.core) : SameDevices x (x.modify i f) where
  core j := by
    by_cases hj : j = i
    · subst hj
      simp [XhcSlots.modify, hf]
    · simp [XhcSlots.modify, hj]
  dcbaa := rfl
  allocated := rfl
  next := rfl
  commands := rfl

theorem sameDevices_contents (x : XhcSlots) (contents : Nat → List (BitVec 8)) :
    SameDevices x { x with contents := contents } := ⟨fun _ => rfl, rfl, rfl, rfl, rfl⟩

theorem SameDevices.isLive (h : SameDevices x x') (j : Nat) : x'.isLive j = x.isLive j := by
  show ((x'.usbDevContext j).core.enabled && decide ((x'.usbDevContext j).core.slotId ≠ 0)) = _
  rw [h.core j]
  rfl

theorem SameDevices.owned (h : SameDevices x x') (j : Nat) :
    (x'.usbDevContext j).owned = (x.usbDevContext j).owned := by
  show (x'.usbDevContext j).core.owned = (x.usbDevContext j).core.owned
  rw [h.core j]

theorem SlotsInv.same (hinv : SlotsInv t x) (h : SameDevices x x') : SlotsInv t x' where
  tree :=
    { live_iff := by
        intro j
        rw [h.isLive]
        exact hinv.tree.live_iff j
      entry := by
        intro j m hm
        have hentry := hinv.tree.entry hm
        exact
          { slotId := (congrArg UsbDevContext.slotId (h.core j)).trans hentry.slotId
            mem := hentry.mem
            isPlace := hentry.isPlace
            route := (congrArg UsbDevContext.routeString (h.core j)).trans hentry.route
            parent := (congrArg UsbDevContext.parentRouteString (h.core j)).trans hentry.parent
            held := by rw [h.commands, hentry.held] } }
  memory :=
    { nodup := by
        intro j hj
        rw [h.owned]
        exact hinv.memory.nodup j (h.isLive j ▸ hj)
      allocated := by
        intro j hj
        rw [h.owned, h.allocated]
        exact hinv.memory.allocated j (h.isLive j ▸ hj)
      apart := by
        intro j k a hj hk
        rw [h.owned, h.owned]
        exact hinv.memory.apart j k a (h.isLive j ▸ hj) (h.isLive k ▸ hk)
      dcbaa := by
        intro j a hentry
        rw [h.dcbaa] at hentry
        obtain ⟨hmem, honly⟩ := hinv.memory.dcbaa j a hentry
        rw [h.allocated]
        refine ⟨hmem, ?_⟩
        intro k hk
        rw [h.owned]
        exact honly k (h.isLive k ▸ hk)
      output := by
        intro j hj
        rw [h.dcbaa, hinv.memory.output j (h.isLive j ▸ hj)]
        exact (congrArg UsbDevContext.outputContext (h.core j)).symm
      rings := by
        intro j hj
        rw [← hinv.memory.rings j (h.isLive j ▸ hj)]
        exact congrArg (fun c => c.endpointTransferRing.length) (h.core j)
      fresh := by
        rw [h.allocated, h.next]
        exact hinv.memory.fresh
      once := by
        rw [h.allocated]
        exact hinv.memory.once }
  contexts := by
    apply hinv.contexts.frame
    intro j m hm
    have houtput : (x'.usbDevContext j).core.outputSlot =
        (x.usbDevContext j).core.outputSlot := by
      rw [h.core j]
    exact ⟨hm, houtput⟩

end Same

/-! ## The requests -/

section Requests

variable {controller : Controller} {t : PlaceTree Nat Nat} {x y x' : XhcSlots} {i : Nat}
  {l : List Nat}

theorem ownCount_setRing {c : UsbDevContext} {k : Nat} (hk : k < c.endpointTransferRing.length)
    (r : Option RingPtr) (a : Nat) :
    UsbDevContext.ownCount { c with endpointTransferRing := c.endpointTransferRing.set k r } a +
        (c.endpointTransferRing[k].toList.flatMap RingPtr.owned).count a =
      c.ownCount a + (r.toList.flatMap RingPtr.owned).count a := by
  have hset := count_flatMap_set (f := fun r : Option RingPtr => r.toList.flatMap RingPtr.owned)
    hk r a
  unfold UsbDevContext.ownCount
  simp only
  omega

/-- The entry of a slot of a device is changed, after allocations. -/
theorem Allocates.modify (h : Allocates x y) (hinv : SlotsInv t x) (hplace : t.place i = some l)
    {f : UsbDevContext → UsbDevContext} (henabled : ∀ c, (f c).enabled = c.enabled)
    (hslotId : ∀ c, (f c).slotId = c.slotId)
    (houtput : ∀ c, (f c).outputContext = c.outputContext)
    (hrings : ∀ c, (f c).endpointTransferRing.length = c.endpointTransferRing.length)
    (hown : ∀ a, (f (x.usbDevContext i)).ownCount a ≤
      (x.usbDevContext i).ownCount a + newCount x y a) :
    Changed x (y.modify i f) i ∧ (y.modify i f).usbDevContext i = f (x.usbDevContext i) := by
  have hlive := (hinv.tree.live_iff i).mpr ⟨l, hplace⟩
  have hcontext : (y.modify i f).usbDevContext i = f (x.usbDevContext i) := by
    rw [← h.contexts]
    exact Function.update_self _ _ _
  refine ⟨h.changed hinv.memory ?_ rfl rfl ?_ ?_ ?_ ?_, hcontext⟩
  · intro j hj
    exact ⟨Function.update_of_ne hj _ _, rfl⟩
  · unfold XhcSlots.isLive at hlive ⊢
    rw [hcontext, henabled, hslotId]
    exact hlive
  · rw [hcontext, houtput, ← hinv.memory.output i hlive, ← h.dcbaa]
    rfl
  · rw [hcontext, hrings]
    exact hinv.memory.rings i hlive
  · intro a
    rw [hcontext, baseCount, if_pos hlive]
    exact hown a

/-- The fields that say which device a slot is for, and its slot context. -/
def UsbDevContext.device (c : UsbDevContext) : Nat × UsbDevRoute × UsbDevRoute × SlotContext :=
  (c.slotId, c.routeString, c.parentRouteString, c.outputSlot)

/-- A change that leaves the device and its slot context as they are. -/
theorem SlotsInv.modify (hinv : SlotsInv t x) (h : Allocates x y) (hplace : t.place i = some l)
    {f : UsbDevContext → UsbDevContext} (henabled : ∀ c, (f c).enabled = c.enabled)
    (hdevice : ∀ c, (f c).device = c.device)
    (houtput : ∀ c, (f c).outputContext = c.outputContext)
    (hrings : ∀ c, (f c).endpointTransferRing.length = c.endpointTransferRing.length)
    (hown : ∀ a, (f (x.usbDevContext i)).ownCount a ≤
      (x.usbDevContext i).ownCount a + newCount x y a) : SlotsInv t (y.modify i f) := by
  have hslotId : ∀ c, (f c).slotId = c.slotId := fun c => congrArg Prod.fst (hdevice c)
  obtain ⟨hchanged, hcontext⟩ := h.modify hinv hplace henabled hslotId houtput hrings hown
  have hsame := hdevice (x.usbDevContext i)
  simp only [UsbDevContext.device, Prod.mk.injEq] at hsame
  obtain ⟨_, hroute, hparent, houtputSlot⟩ := hsame
  apply hinv.change hchanged hplace
  · rw [hcontext, hslotId]
  · rw [hcontext, hroute]
  · rw [hcontext, hparent]
  · exact h.commands
  · apply hinv.contexts.change hchanged
    rw [hcontext, houtputSlot]

/-- A ring for an endpoint that has none. -/
theorem createEndpointRing_inv (hinv : SlotsInv t x) (hplace : t.place i = some l) {dci : Nat}
    (hdci : dci ≤ 31) : SlotsInv t (x.createEndpointRing i dci) := by
  have hlive := (hinv.tree.live_iff i).mpr ⟨l, hplace⟩
  have hlength := hinv.memory.rings i hlive
  have hindex : dci - 1 < (x.usbDevContext i).endpointTransferRing.length := by omega
  have hallocates := ((allocates_refl hinv.memory).allocate hinv.memory).allocate hinv.memory
  unfold XhcSlots.createEndpointRing
  rw [List.getD_eq_getElem?_getD, List.getElem?_eq_getElem hindex, Option.getD_some]
  split
  · exact hinv
  · rename_i hnone
    apply hinv.modify hallocates hplace
    · exact fun _ => rfl
    · exact fun _ => rfl
    · exact fun _ => rfl
    · exact fun _ => List.length_set
    · intro a
      have hset := ownCount_setRing hindex (some ⟨x.nextAddress, x.nextAddress + 1⟩) a
      have howned : (some (RingPtr.mk x.nextAddress (x.nextAddress + 1))).toList.flatMap
          RingPtr.owned = [x.nextAddress + 1, x.nextAddress] := rfl
      have hnew : [x.nextAddress + 1, x.nextAddress].count a ≤
          newCount x x.allocate.2.allocate.2 a := by
        apply count_le_newCount (by simp)
        simp [XhcSlots.allocate]
      rw [hnone, howned] at hset
      simp only [Option.toList_none, List.flatMap_nil, List.count_nil, Nat.add_zero] at hset
      exact (Nat.le_of_eq hset).trans (Nat.add_le_add_left hnew _)

theorem createEndpointRings_inv (hinv : SlotsInv t x) (hplace : t.place i = some l)
    {dcis : List Nat} (hdcis : ∀ dci ∈ dcis, dci ≤ 31) :
    SlotsInv t (dcis.foldl (fun x dci => x.createEndpointRing i dci) x) := by
  induction dcis generalizing x with
  | nil => exact hinv
  | cons dci dcis ih =>
      apply ih (createEndpointRing_inv hinv hplace (hdcis dci List.mem_cons_self))
      exact fun d hd => hdcis d (List.mem_cons_of_mem _ hd)

/-- The copies of a configuration descriptor and of the alternate settings. -/
theorem storeConfig_inv (hinv : SlotsInv t x) (hplace : t.place i = some l) (index : Nat)
    (data : List (BitVec 8)) (numInterfaces : BitVec 8) :
    SlotsInv t (x.storeConfig i index data numInterfaces) := by
  have hallocates := ((allocates_refl hinv.memory).allocate hinv.memory).allocate hinv.memory
  refine SlotsInv.same ?_ (sameDevices_contents _ _)
  apply hinv.modify hallocates hplace
  · exact fun _ => rfl
  · exact fun _ => rfl
  · exact fun _ => rfl
  · exact fun _ => rfl
  · intro a
    have hset := count_flatMap_set_le (f := Option.toList) (L := (x.usbDevContext i).confDesc)
      (k := index) (some x.nextAddress) a
    have hnew : ([x.nextAddress] ++ [x.nextAddress + 1]).count a ≤
        newCount x x.allocate.2.allocate.2 a := by
      apply count_le_newCount (by simp)
      simp [XhcSlots.allocate]
    rw [List.count_append] at hnew
    unfold UsbDevContext.ownCount
    show ((x.usbDevContext i).endpointTransferRing.flatMap _).count a +
      (((x.usbDevContext i).confDesc.set index (some x.nextAddress)).flatMap _).count a +
      [x.nextAddress + 1].count a + (x.usbDevContext i).inputContext.toList.count a +
      (x.usbDevContext i).outputContext.toList.count a ≤ _
    rw [Option.toList_some] at hset
    omega

/-- The device descriptor is read; the copies of older descriptors are given up. -/
theorem deviceDescriptor_inv (hinv : SlotsInv t x) (hplace : t.place i = some l)
    (numConfigurations : Option Nat) : SlotsInv t (x.deviceDescriptor i numConfigurations) := by
  have hallocates := (allocates_refl hinv.memory).allocate hinv.memory
  unfold XhcSlots.deviceDescriptor
  apply hinv.modify hallocates hplace
  · exact fun _ => rfl
  · exact fun _ => rfl
  · exact fun _ => rfl
  · exact fun _ => rfl
  · intro a
    have hnone : ∀ n, (List.replicate n (none : Option Nat)).flatMap Option.toList = [] := by
      intro n
      simp [List.flatMap_replicate]
    unfold UsbDevContext.ownCount
    simp only [hnone, List.count_nil]
    omega

/-- The ring of an endpoint belongs to the entry, and what else does is the rest. -/
theorem owned_ring {c : UsbDevContext} (hnodup : c.owned.Nodup) {k : Nat} {r : RingPtr}
    (hget : c.endpointTransferRing[k]? = some (some r)) :
    (∀ a, UsbDevContext.ownCount
        { c with endpointTransferRing := c.endpointTransferRing.set k none } a +
          r.owned.count a = c.ownCount a) ∧
      (∀ a ∈ r.owned, a ∈ c.owned) ∧ r.owned.Nodup := by
  obtain ⟨hindex, hsome⟩ := List.getElem?_eq_some_iff.mp hget
  have hset := fun a => ownCount_setRing hindex none a
  rw [hsome] at hset
  simp only [Option.toList_some, Option.toList_none, List.flatMap_cons, List.flatMap_nil,
    List.append_nil, List.count_nil, Nat.add_zero] at hset
  have honce := nodup_owned_iff.mp hnodup
  refine ⟨hset, fun a ha => ?_, List.nodup_iff_count_le_one.mpr fun a => ?_⟩
  · rw [mem_owned_iff, ← hset a]
    have hpos := List.count_pos_iff.mpr ha
    omega
  · have hle := honce a
    rw [← hset a] at hle
    omega

/-- The ring of an endpoint is freed. -/
theorem freeEndpointRing_inv (hinv : SlotsInv t x) (hplace : t.place i = some l) (dci : Nat) :
    ∃ x', x.freeEndpointRing i dci = some x' ∧ SlotsInv t x' ∧ x'.commands = x.commands := by
  have hlive := (hinv.tree.live_iff i).mpr ⟨l, hplace⟩
  unfold XhcSlots.freeEndpointRing
  split
  · exact ⟨x, rfl, hinv, rfl⟩
  · rename_i r hring
    have hget : (x.usbDevContext i).endpointTransferRing[dci - 1]? = some (some r) := by
      rw [List.getD_eq_getElem?_getD] at hring
      cases hget : (x.usbDevContext i).endpointTransferRing[dci - 1]? with
      | none =>
          rw [hget] at hring
          cases hring
      | some s =>
          rw [hget, Option.getD_some] at hring
          rw [hring]
    obtain ⟨hset, howned, hnodup⟩ := owned_ring (hinv.memory.nodup i hlive) hget
    have honce := nodup_owned_iff.mp (hinv.memory.nodup i hlive)
    obtain ⟨allocated, hfree, hnodup', hiff⟩ := freeAll_spec hnodup
      (fun a ha => hinv.memory.allocated i hlive a (howned a ha)) hinv.memory.once
    rw [hfree]
    refine ⟨_, rfl, ?_, rfl⟩
    -- The slot has lost the two addresses of the ring; nothing else has changed.
    have hchanged : Changed x (XhcSlots.mk (x.modify i fun c =>
        { c with
          endpointTransferRing := c.endpointTransferRing.set (dci - 1) none }).usbDevContext
          x.dcbaa allocated x.contents x.nextAddress x.commands) i :=
      { others := by
          intro j hj
          exact ⟨Function.update_of_ne hj _ _, rfl⟩
        next := Nat.le_refl _
        fresh := by
          intro a ha
          exact hinv.memory.fresh a ((hiff a).mp ha).1
        once := hnodup'
        kept := by
          intro a ha
          by_cases hfreed : a ∈ r.owned
          · exact .inr ⟨hlive, howned a hfreed⟩
          · exact .inl ((hiff a).mpr ⟨ha, hfreed⟩)
        live := by
          unfold XhcSlots.isLive at hlive ⊢
          simpa [XhcSlots.modify] using hlive
        owned := by
          intro a ha
          rw [mem_owned_iff] at ha
          have hcount := hset a
          have hle := honce a
          simp only [XhcSlots.modify, Function.update_self] at ha
          have hold : a ∈ (x.usbDevContext i).owned := by
            rw [mem_owned_iff]
            omega
          have hnot : a ∉ r.owned := by
            rw [← List.count_eq_zero]
            omega
          exact ⟨(hiff a).mpr ⟨hinv.memory.allocated i hlive a hold, hnot⟩,
            .inr ⟨hlive, hold⟩⟩
        nodup := by
          rw [nodup_owned_iff]
          intro a
          have hcount := hset a
          have hle := honce a
          simp only [XhcSlots.modify, Function.update_self]
          omega
        output := by
          simpa [XhcSlots.modify] using hinv.memory.output i hlive
        rings := by
          simpa [XhcSlots.modify] using hinv.memory.rings i hlive }
    apply hinv.change hchanged hplace
    · simp [XhcSlots.modify]
    · simp [XhcSlots.modify]
    · simp [XhcSlots.modify]
    · rfl
    · apply hinv.contexts.change hchanged
      simp [XhcSlots.modify]

end Requests

end XhciDxe
end EfiApps
