import EfiApps.Lib.PlaceTree
import EfiApps.XhciDxe.DeviceSlots

/-!
# The slots as a tree

The slots in use are the nodes of a tree: each is at the place that its route names.  What is
allocated for a slot belongs to that slot alone, and the controller is given the addresses of
contexts that are allocated.

`XhcDisableSlotCmd` calls itself for the slots of the devices behind a hub.  It prunes a whole
subtree, whichever of its commands fail.
-/

namespace EfiApps
namespace XhciDxe

open PciMisc (EfiStatus)

/-! ## What the controller has enabled -/

/-- Whether the controller has enabled a slot, and not reported it disabled. -/
def heldAfter (held : Nat → Bool) : SlotCommand × CmdResult → Nat → Bool
  | (.enableSlot, result) =>
      if result.status.isError then held else Function.update held result.slotId true
  | (.disableSlot slotId, result) =>
      if result.status.isError then held else Function.update held slotId false
  | _ => held

def heldSlots (commands : List (SlotCommand × CmdResult)) : Nat → Bool :=
  commands.foldl heldAfter fun _ => false

theorem heldSlots_append (commands : List (SlotCommand × CmdResult)) (command : SlotCommand)
    (result : CmdResult) :
    heldSlots (commands ++ [(command, result)]) =
      heldAfter (heldSlots commands) (command, result) := by
  unfold heldSlots
  rw [List.foldl_append]
  rfl

/-- The controller enables slots that it has, and that are not enabled. -/
structure Controller.Regular (controller : Controller) : Prop where
  number : controller.maxSlotsEn ≤ 255
  range : ∀ commands, (controller.answer commands .enableSlot).status.isError = false →
    (controller.answer commands .enableSlot).slotId ≠ 0 ∧
      (controller.answer commands .enableSlot).slotId ≤ controller.maxSlotsEn
  free : ∀ commands, (controller.answer commands .enableSlot).status.isError = false →
    heldSlots commands (controller.answer commands .enableSlot).slotId = false

/-! ## The invariant -/

/-- The entry of the slot `i`, of a device at the place `l`. -/
structure EntryAt (x : XhcSlots) (i : Nat) (l : List Nat) : Prop where
  slotId : (x.usbDevContext i).slotId = i
  mem : i ∈ slotIndices
  isPlace : IsPlace l
  route : (x.usbDevContext i).routeString = routeOf l
  parent : (x.usbDevContext i).parentRouteString = routeOf l.dropLast
  held : heldSlots x.commands i = true

/-- The slots in use are those of the tree `t`. -/
structure SlotsAt (t : PlaceTree Nat Nat) (x : XhcSlots) : Prop where
  live_iff : ∀ i, x.isLive i = true ↔ ∃ l, t.place i = some l
  entry : ∀ {i l}, t.place i = some l → EntryAt x i l

/-- What is allocated belongs to one slot, or has been given up.  The controller has no address
of what is not allocated. -/
structure OwnsApart (x : XhcSlots) : Prop where
  nodup : ∀ i, x.isLive i = true → (x.usbDevContext i).owned.Nodup
  allocated : ∀ i, x.isLive i = true → ∀ a ∈ (x.usbDevContext i).owned, a ∈ x.allocated
  apart : ∀ i j a, x.isLive i = true → x.isLive j = true → a ∈ (x.usbDevContext i).owned →
    a ∈ (x.usbDevContext j).owned → i = j
  dcbaa : ∀ i a, x.dcbaa i = some a → a ∈ x.allocated ∧
    ∀ j, x.isLive j = true → a ∈ (x.usbDevContext j).owned → j = i
  output : ∀ i, x.isLive i = true → x.dcbaa i = (x.usbDevContext i).outputContext
  rings : ∀ i, x.isLive i = true → (x.usbDevContext i).endpointTransferRing.length = 31
  fresh : ∀ a ∈ x.allocated, a < x.nextAddress
  once : x.allocated.Nodup

/-- The slot context of a new device at `l`, without that of its hub. -/
def newSlot (l : List Nat) (deviceSpeed : UsbSpeed) : SlotContext where
  routeString := (routeOf l).routeString
  speed := deviceSpeed.toNat + 1
  contextEntries := 1
  rootHubPortNum := (routeOf l).rootPortNum

/-- A slot context that a device at `l` can be given: with the `TT` fields that its hub has, or
that say that its hub is the first to need them. -/
def GivenSlot (t : PlaceTree Nat Nat) (x : XhcSlots) (l : List Nat) (slot : SlotContext) : Prop :=
  ∃ port deviceSpeed, l = childPlace l.dropLast port ∧
    ((routeOf l).routeString = 0 ∧ slot = newSlot l deviceSpeed ∨
      (routeOf l).routeString ≠ 0 ∧ ∃ j, t.place j = some l.dropLast ∧
        slot = XhcSlots.ttFields (x.usbDevContext j).outputSlot j port deviceSpeed
          (newSlot l deviceSpeed))

/-- The slot contexts that the controller has are still empty, or copies of such that devices at
their places can be given. -/
def ContextsAt (t : PlaceTree Nat Nat) (x : XhcSlots) : Prop :=
  ∀ i l, t.place i = some l → (x.usbDevContext i).outputSlot = {} ∨
    ∃ slot a, GivenSlot t x l slot ∧
      (x.usbDevContext i).outputSlot = { slot with deviceAddress := a }

structure SlotsInv (t : PlaceTree Nat Nat) (x : XhcSlots) : Prop where
  tree : SlotsAt t x
  memory : OwnsApart x
  contexts : ContextsAt t x

/-- Nothing is said of hubs that are gone. -/
theorem ContextsAt.frame {t t' : PlaceTree Nat Nat} {x x' : XhcSlots} (h : ContextsAt t x)
    (hsame : ∀ i l, t'.place i = some l → t.place i = some l ∧
      (x'.usbDevContext i).outputSlot = (x.usbDevContext i).outputSlot) : ContextsAt t' x' := by
  intro i l hplace
  obtain ⟨hold, houtput⟩ := hsame i l hplace
  rw [houtput]
  rcases h i l hold with hempty | ⟨slot, a, ⟨port, deviceSpeed, hchild, hslot⟩, hcopy⟩
  · exact .inl hempty
  · refine .inr ⟨slot, a, ⟨port, deviceSpeed, hchild, ?_⟩, hcopy⟩
    rcases hslot with hslot | ⟨hstring, j, hj, hslot⟩
    · exact .inl hslot
    · -- The hub is still there.
      have hnonempty : l.dropLast ≠ [] := by
        intro hnil
        exact t.nonempty j (hnil ▸ hj)
      have hhub : ∃ k, t'.place k = some l.dropLast := by
        apply t'.parent (i := i) (a := if l.dropLast = [] then port else hubTurn port) _ hnonempty
        rw [hplace]
        exact congrArg some hchild
      obtain ⟨k, hk⟩ := hhub
      obtain ⟨hk', houtput⟩ := hsame k _ hk
      have heq : k = j := t.unique hk' hj
      subst heq
      exact .inr ⟨hstring, k, hk, by rw [houtput, hslot]⟩

/-! ## Frees -/

theorem freeAll_spec {addresses allocated : List Nat} (hnodup : addresses.Nodup)
    (hmem : ∀ a ∈ addresses, a ∈ allocated) (honce : allocated.Nodup) :
    ∃ allocated', freeAll addresses allocated = some allocated' ∧ allocated'.Nodup ∧
      ∀ a, a ∈ allocated' ↔ a ∈ allocated ∧ a ∉ addresses := by
  induction addresses generalizing allocated with
  | nil => exact ⟨allocated, rfl, honce, by simp⟩
  | cons b addresses ih =>
      obtain ⟨hnot, hrest⟩ := List.nodup_cons.mp hnodup
      have herase : ∀ a, a ∈ allocated.erase b ↔ a ≠ b ∧ a ∈ allocated := fun a =>
        honce.mem_erase_iff
      obtain ⟨allocated', hfree, honce', hiff⟩ := ih hrest
        (fun a ha => (herase a).mpr
          ⟨fun heq => hnot (heq ▸ ha), hmem a (List.mem_cons_of_mem _ ha)⟩)
        (honce.erase b)
      refine ⟨allocated', ?_, honce', ?_⟩
      · rw [freeAll, if_pos (hmem b List.mem_cons_self), hfree]
      · intro a
        rw [hiff, herase, List.mem_cons]
        tauto

/-! ## A slot goes out of use -/

section Drop

variable {t : PlaceTree Nat Nat} {x x' : XhcSlots} {i : Nat} {l : List Nat}

/-- The slot `i` has gone out of use, and with it, unless it has been lost, what belonged
to it. -/
structure Dropped (x x' : XhcSlots) (i : Nat) : Prop where
  dead : x'.isLive i = false
  others : ∀ j, j ≠ i → x'.usbDevContext j = x.usbDevContext j ∧ x'.dcbaa j = x.dcbaa j
  held : ∀ j, j ≠ i → heldSlots x'.commands j = heldSlots x.commands j
  next : x'.nextAddress = x.nextAddress
  once : x'.allocated.Nodup
  freed : x'.dcbaa i = none ∧
      (∀ a, a ∈ x'.allocated ↔ a ∈ x.allocated ∧ a ∉ (x.usbDevContext i).owned) ∨
    x'.dcbaa i = x.dcbaa i ∧ x'.allocated = x.allocated

theorem Dropped.isLive (h : Dropped x x' i) (j : Nat) :
    x'.isLive j = true ↔ x.isLive j = true ∧ j ≠ i := by
  by_cases hj : j = i
  · subst hj
    simp [h.dead]
  · unfold XhcSlots.isLive
    rw [(h.others j hj).1]
    simp [hj]

theorem Dropped.mem_allocated (h : Dropped x x' i) {a : Nat} (ha : a ∈ x.allocated)
    (hnot : a ∉ (x.usbDevContext i).owned) : a ∈ x'.allocated := by
  rcases h.freed with ⟨_, hiff⟩ | ⟨_, hsame⟩
  · exact (hiff a).mpr ⟨ha, hnot⟩
  · rwa [hsame]

theorem Dropped.of_mem_allocated (h : Dropped x x' i) {a : Nat} (ha : a ∈ x'.allocated) :
    a ∈ x.allocated := by
  rcases h.freed with ⟨_, hiff⟩ | ⟨_, hsame⟩
  · exact ((hiff a).mp ha).1
  · rwa [hsame] at ha

theorem OwnsApart.drop (hinv : OwnsApart x) (hlive : x.isLive i = true) (h : Dropped x x' i) :
    OwnsApart x' where
  nodup j hj := by
    obtain ⟨hj, hne⟩ := (h.isLive j).mp hj
    rw [(h.others j hne).1]
    exact hinv.nodup j hj
  allocated j hj a ha := by
    obtain ⟨hj, hne⟩ := (h.isLive j).mp hj
    rw [(h.others j hne).1] at ha
    apply h.mem_allocated (hinv.allocated j hj a ha)
    intro hown
    exact hne (hinv.apart j i a hj hlive ha hown)
  apart j k a hj hk ha ha' := by
    obtain ⟨hj, hne⟩ := (h.isLive j).mp hj
    obtain ⟨hk, hne'⟩ := (h.isLive k).mp hk
    rw [(h.others j hne).1] at ha
    rw [(h.others k hne').1] at ha'
    exact hinv.apart j k a hj hk ha ha'
  dcbaa j a hentry := by
    have hold : x.dcbaa j = some a ∧ a ∈ x'.allocated := by
      by_cases hj : j = i
      · subst hj
        -- The entry of the slot has been cleared, or nothing has been freed.
        rcases h.freed with ⟨hnone, _⟩ | ⟨hsame, halloc⟩
        · rw [hnone] at hentry
          cases hentry
        · rw [hsame] at hentry
          rw [halloc]
          exact ⟨hentry, (hinv.dcbaa j a hentry).1⟩
      · rw [(h.others j hj).2] at hentry
        refine ⟨hentry, h.mem_allocated (hinv.dcbaa j a hentry).1 ?_⟩
        intro hown
        exact hj ((hinv.dcbaa j a hentry).2 i hlive hown).symm
    refine ⟨hold.2, ?_⟩
    intro k hk ha
    obtain ⟨hk, hne⟩ := (h.isLive k).mp hk
    rw [(h.others k hne).1] at ha
    exact (hinv.dcbaa j a hold.1).2 k hk ha
  output j hj := by
    obtain ⟨hj, hne⟩ := (h.isLive j).mp hj
    rw [(h.others j hne).1, (h.others j hne).2]
    exact hinv.output j hj
  rings j hj := by
    obtain ⟨hj, hne⟩ := (h.isLive j).mp hj
    rw [(h.others j hne).1]
    exact hinv.rings j hj
  fresh a ha := by
    rw [h.next]
    exact hinv.fresh a (h.of_mem_allocated ha)
  once := h.once

/-- A slot without devices behind it goes out of use. -/
theorem SlotsInv.drop (hinv : SlotsInv t x) (hplace : t.place i = some l) (h : Dropped x x' i)
    {U : List Nat → Prop} (hu : ∀ l m, U l → l <+: m → U m)
    (honly : ∀ j m, t.place j = some m → (U m ↔ j = i)) : SlotsInv (t.prune U hu) x' where
  tree :=
    { live_iff := by
        intro j
        rw [h.isLive, hinv.tree.live_iff, PlaceTree.prune_place_iff]
        constructor
        · rintro ⟨⟨m, hm⟩, hne⟩
          exact ⟨m, hm, fun hin => hne ((honly j m hm).mp hin)⟩
        · rintro ⟨m, hm, hout⟩
          exact ⟨⟨m, hm⟩, fun heq => hout ((honly j m hm).mpr heq)⟩
      entry := by
        intro j m hm
        obtain ⟨hm, hout⟩ := (t.prune_place U hu).mp hm
        have hne : j ≠ i := fun heq => hout ((honly j m hm).mpr heq)
        have hentry := hinv.tree.entry hm
        have hsame := (h.others j hne).1
        exact
          { slotId := by rw [hsame, hentry.slotId]
            mem := hentry.mem
            isPlace := hentry.isPlace
            route := by rw [hsame, hentry.route]
            parent := by rw [hsame, hentry.parent]
            held := by rw [h.held j hne, hentry.held] } }
  memory := hinv.memory.drop ((hinv.tree.live_iff i).mpr ⟨l, hplace⟩) h
  contexts := by
    apply hinv.contexts.frame
    intro j m hm
    obtain ⟨hm, hout⟩ := (t.prune_place U hu).mp hm
    rw [(h.others j fun heq => hout ((honly j m hm).mpr heq)).1]
    exact ⟨hm, rfl⟩

end Drop

end XhciDxe
end EfiApps
