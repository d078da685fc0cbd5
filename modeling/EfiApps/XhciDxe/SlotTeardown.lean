import EfiApps.XhciDxe.SlotRuns

/-!
# Slots are torn down

When a hub goes, so do the slots of all devices behind it, and when the driver is stopped, so
do all slots.  The devices go before their hubs, and what belonged to a slot is freed exactly
if the controller has disabled it.
-/

namespace EfiApps
namespace XhciDxe

open PciMisc (EfiStatus)

/-! ## One slot -/

section Slot

variable {controller : Controller} {x : XhcSlots} {left : Nat}

/-- In every state that is reached, `XhcDisableSlotCmd` gives one command for each slot of a
device at or behind the hub, none before those of the devices behind it.  Whichever commands
fail, all slots behind the hub go out of use, and that of the hub does unless its own command
fails.  No other slot changes, and exactly what belonged to slots whose commands have succeeded
is freed. -/
theorem disableSlot_subtree (hregular : controller.Regular) (hleft : 6 ≤ left)
    (h : SlotsReachable controller left x) :
    ∃ t, SlotsAt t x ∧ ∀ slotId l, t.place slotId = some l →
      ∃ status x', XhcSlots.xhcDisableSlotCmd controller left slotId x = some (status, x') ∧
        Disables controller t slotId l status x x' := by
  obtain ⟨t, hinv⟩ := h.slotsInv hregular hleft
  refine ⟨t, hinv.tree, ?_⟩
  intro slotId l hplace
  exact xhcDisableSlotCmd_place controller hinv hplace hleft

theorem disableSlot_subtree_behindHub :
    ∃ t, SlotsAt t behindHub ∧ ∀ slotId l, t.place slotId = some l →
      ∃ status x',
        XhcSlots.xhcDisableSlotCmd (severalSlots 4) 6 slotId behindHub = some (status, x') ∧
          Disables (severalSlots 4) t slotId l status behindHub x' :=
  disableSlot_subtree fourSlots_regular (Nat.le_refl 6) behindHub_reachable

end Slot

/-! ## All slots -/

section Stop

variable {controller : Controller} {t : PlaceTree Nat Nat} {x : XhcSlots} {left : Nat}

/-- At or behind one of the slots `is`. -/
def AtAny (t : PlaceTree Nat Nat) (is : List Nat) (m : List Nat) : Prop :=
  ∃ i ∈ is, ∃ l, t.place i = some l ∧ l <+: m

theorem atAny_mono (t : PlaceTree Nat Nat) (is : List Nat) :
    ∀ m m', AtAny t is m → m <+: m' → AtAny t is m' := by
  rintro m m' ⟨i, hi, l, hplace, hpre⟩ h
  exact ⟨i, hi, l, hplace, hpre.trans h⟩

/-- The controller disables the slots that it is to disable. -/
def Controller.Obeys (controller : Controller) : Prop :=
  ∀ commands slotId, (controller.answer commands (.disableSlot slotId)).status.isError = false

theorem Orders.disabled_iff {U : List Nat → Prop} {x' : XhcSlots}
    {given : List (SlotCommand × CmdResult)} {slots : List Nat}
    (h : Orders controller t U x x' given slots) (hobeys : controller.Obeys) (i : Nat) :
    Disabled given i ↔ i ∈ slots := by
  constructor
  · exact fun hdisabled => hdisabled.mem h.map_eq
  · intro hmem
    have hcommand : SlotCommand.disableSlot i ∈ given.map Prod.fst := by
      rw [h.map_eq]
      exact List.mem_map_of_mem hmem
    obtain ⟨⟨command, result⟩, hgiven, hsame⟩ := List.mem_map.mp hcommand
    obtain ⟨commands, hanswer⟩ := h.answers _ hgiven
    dsimp only at hsame hanswer
    subst hsame
    refine ⟨result, hgiven, ?_⟩
    rw [hanswer]
    exact hobeys commands i

/-- One slot after the other is disabled; some are gone before it is their turn. -/
theorem stopSlots_inv (h : SlotsInv t x) (hleft : 6 ≤ left) (is : List Nat) :
    ∃ x' t', XhcSlots.stopSlots controller left is x = some x' ∧ SlotsInv t' x' := by
  induction is generalizing t x with
  | nil => exact ⟨x, t, rfl, h⟩
  | cons i is ih =>
      rw [XhcSlots.stopSlots]
      split_ifs with hlive
      · obtain ⟨l, hplace⟩ := (h.tree.live_iff i).mp hlive
        obtain ⟨status, y, hrun, hdisables⟩ := xhcDisableSlotCmd_place controller h hplace hleft
        rw [(h.tree.entry hplace).slotId, hrun]
        exact ih hdisables.inv
      · exact ih h

/-- The slots at one slot and behind it, and then the others. -/
theorem atAny_cons_placed {i : Nat} {is l : List Nat} (hplace : t.place i = some l)
    (m : List Nat) :
    AtAny t (i :: is) m ↔
      AtOrBehind l m ∨ AtAny (t.prune (AtOrBehind l) (atOrBehind_mono l)) is m := by
  constructor
  · rintro ⟨j, hj, l', hplace', hpre⟩
    by_cases hfirst : AtOrBehind l l'
    · exact .inl (List.IsPrefix.trans hfirst hpre)
    · have hne : j ≠ i := by
        rintro rfl
        rw [hplace, Option.some.injEq] at hplace'
        exact hfirst (hplace' ▸ List.prefix_rfl)
      exact .inr ⟨j, List.mem_of_ne_of_mem hne hj, l',
        (t.prune_place _ _).mpr ⟨hplace', hfirst⟩, hpre⟩
  · rintro (hbehind | ⟨j, hj, l', hplace', hpre⟩)
    · exact ⟨i, List.mem_cons_self, l, hplace, hbehind⟩
    · exact ⟨j, List.mem_cons_of_mem _ hj, l', ((t.prune_place _ _).mp hplace').1, hpre⟩

theorem atAny_cons_free {i : Nat} {is : List Nat} (hnone : ¬ ∃ l, t.place i = some l)
    (m : List Nat) : AtAny t is m ↔ AtAny t (i :: is) m := by
  constructor
  · rintro ⟨j, hj, l, hplace, hpre⟩
    exact ⟨j, List.mem_cons_of_mem _ hj, l, hplace, hpre⟩
  · rintro ⟨j, hj, l, hplace, hpre⟩
    rcases List.mem_cons.mp hj with rfl | hj
    · exact absurd ⟨l, hplace⟩ hnone
    · exact ⟨j, hj, l, hplace, hpre⟩

/-- If all commands succeed, the loop disables the slots that it comes to, and those of the
devices behind them. -/
theorem stopSlots_clears (h : SlotsInv t x) (hleft : 6 ≤ left) (hobeys : controller.Obeys)
    (is : List Nat) :
    ∃ x', XhcSlots.stopSlots controller left is x = some x' ∧
      SlotsInv (t.prune (AtAny t is) (atAny_mono t is)) x' ∧
        Clears controller t (AtAny t is) x x' := by
  induction is generalizing t x with
  | nil =>
      have hnone : ∀ i m, t.place i = some m → ¬ AtAny t [] m := by
        rintro _ _ _ ⟨_, hmem, _⟩
        cases hmem
      refine ⟨x, rfl, ?_, clears_refl hnone⟩
      rw [t.prune_eq_self hnone]
      exact h
  | cons i is ih =>
      rw [XhcSlots.stopSlots]
      split_ifs with hlive
      · obtain ⟨l, hplace⟩ := (h.tree.live_iff i).mp hlive
        obtain ⟨status, y, hrun, hdisables⟩ := xhcDisableSlotCmd_place controller h hplace hleft
        have hsuccess : status.isError = false := by
          obtain ⟨commands, hanswer⟩ := hdisables.answer
          rw [hanswer]
          exact hobeys commands i
        have hinv := hdisables.inv
        rw [t.prune_congr (atOrBehind_mono l) fun _ m _ => gone_iff_of_success hsuccess l m] at hinv
        obtain ⟨z, hloop, hrest, hmore⟩ := ih hinv
        rw [(h.tree.entry hplace).slotId, hrun]
        have hunion : ∀ j m, t.place j = some m → (AtAny t (i :: is) m ↔ AtOrBehind l m ∨
            AtAny (t.prune (AtOrBehind l) (atOrBehind_mono l)) is m) :=
          fun _ m _ => atAny_cons_placed hplace m
        refine ⟨z, hloop, ?_, hdisables.clears.trans hmore hunion⟩
        rw [← t.prune_prune (atAny_mono t (i :: is)) hunion]
        exact hrest
      · have hnone : ¬ ∃ l, t.place i = some l := fun hplace =>
          hlive ((h.tree.live_iff i).mpr hplace)
        obtain ⟨z, hloop, hrest, hmore⟩ := ih h
        have hsame : ∀ j m, t.place j = some m → (AtAny t is m ↔ AtAny t (i :: is) m) :=
          fun _ m _ => atAny_cons_free hnone m
        refine ⟨z, hloop, ?_, hmore.congr hsame⟩
        rw [← t.prune_congr (atAny_mono t (i :: is)) hsame]
        exact hrest

/-- In every state that is reached, the loop of `XhcDriverBindingStop` returns, whichever
commands fail.  If none fails, no slot stays in use, each slot has had one command, none before
those of the devices behind it, and all that belonged to slots has been freed. -/
theorem stopSlots_all (hregular : controller.Regular) (hleft : 6 ≤ left)
    (h : SlotsReachable controller left x) :
    (∃ x', XhcSlots.stopSlots controller left slotIndices x = some x' ∧ OwnsApart x') ∧
      (controller.Obeys →
        ∃ t x' given slots, SlotsAt t x ∧
          XhcSlots.stopSlots controller left slotIndices x = some x' ∧
          (∀ i, x'.isLive i = false) ∧
          x'.commands = x.commands ++ given ∧
          given.map Prod.fst = slots.map SlotCommand.disableSlot ∧
          (∀ i, i ∈ slots ↔ x.isLive i = true) ∧ slots.Nodup ∧ DevicesFirst t slots ∧
          ∀ a, a ∈ x'.allocated ↔
            a ∈ x.allocated ∧ ∀ i, x.isLive i = true → a ∉ (x.usbDevContext i).owned) := by
  obtain ⟨t, hinv⟩ := h.slotsInv hregular hleft
  constructor
  · obtain ⟨x', t', hrun, hinv'⟩ := stopSlots_inv hinv hleft slotIndices
    exact ⟨x', hrun, hinv'.memory⟩
  · intro hobeys
    obtain ⟨x', hrun, hinv', hclears⟩ := stopSlots_clears hinv hleft hobeys slotIndices
    obtain ⟨given, slots, horders⟩ := hclears.orders
    -- The loop comes to every entry.
    have hall : ∀ {i l}, t.place i = some l → AtAny t slotIndices l := fun hplace =>
      ⟨_, (hinv.tree.entry hplace).mem, _, hplace, List.prefix_rfl⟩
    have hslots : ∀ i, i ∈ slots ↔ x.isLive i = true := by
      intro i
      rw [horders.mem_iff, hinv.tree.live_iff]
      constructor
      · rintro ⟨l, hplace, _⟩
        exact ⟨l, hplace⟩
      · rintro ⟨l, hplace⟩
        exact ⟨l, hplace, hall hplace⟩
    refine ⟨t, x', given, slots, hinv.tree, hrun, ?_, horders.commands, horders.map_eq, hslots, ?_,
      horders.devicesFirst, ?_⟩
    · intro i
      rw [Bool.eq_false_iff]
      intro hlive
      obtain ⟨l, hplace, hout⟩ := t.prune_place_iff.mp ((hinv'.tree.live_iff i).mp hlive)
      exact hout (hall hplace)
    · apply horders.devicesFirst.imp_of_mem
      rintro i j hi _ hpair rfl
      obtain ⟨l, hplace, _⟩ := (horders.mem_iff i).mp hi
      exact hpair l l hplace hplace List.prefix_rfl
    · intro a
      rw [horders.frees.mem_iff]
      simp only [horders.disabled_iff hobeys, hslots]

theorem severalSlots_obeys (n : Nat) : (severalSlots n).Obeys := fun _ _ => rfl

theorem stopSlots_all_behindHub :
    (∃ x', XhcSlots.stopSlots (severalSlots 4) 6 slotIndices behindHub = some x' ∧
        OwnsApart x') ∧
      ∃ t x' given slots, SlotsAt t behindHub ∧
        XhcSlots.stopSlots (severalSlots 4) 6 slotIndices behindHub = some x' ∧
        (∀ i, x'.isLive i = false) ∧
        x'.commands = behindHub.commands ++ given ∧
        given.map Prod.fst = slots.map SlotCommand.disableSlot ∧
        (∀ i, i ∈ slots ↔ behindHub.isLive i = true) ∧ slots.Nodup ∧ DevicesFirst t slots ∧
        ∀ a, a ∈ x'.allocated ↔ a ∈ behindHub.allocated ∧
          ∀ i, behindHub.isLive i = true → a ∉ (behindHub.usbDevContext i).owned := by
  have hstop := stopSlots_all fourSlots_regular (Nat.le_refl 6) behindHub_reachable
  exact ⟨hstop.1, hstop.2 (severalSlots_obeys 4)⟩

end Stop

end XhciDxe
end EfiApps
