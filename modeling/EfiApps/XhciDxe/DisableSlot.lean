import EfiApps.XhciDxe.SlotTree

/-!
# Disabling a slot

`XhcDisableSlotCmd` looks through all entries for devices behind the one that it disables,
and calls itself for each.  The tree says which slots it reaches, and in which order it gives
its commands.
-/

namespace EfiApps
namespace XhciDxe

open PciMisc (EfiStatus)

/-! ## What is done to a part of the tree -/

/-- No slot is disabled before one that is behind it. -/
def DevicesFirst (t : PlaceTree Nat Nat) (slots : List Nat) : Prop :=
  slots.Pairwise fun i j => ∀ l m, t.place i = some l → t.place j = some m → ¬ l <+: m

/-- Whether one of the commands has disabled the slot. -/
def Disabled (given : List (SlotCommand × CmdResult)) (i : Nat) : Prop :=
  ∃ result, (SlotCommand.disableSlot i, result) ∈ given ∧ result.status.isError = false

/-- What belonged to the slots that the commands have disabled is freed, and nothing else. -/
structure Frees (given : List (SlotCommand × CmdResult)) (x x' : XhcSlots) : Prop where
  mem_iff : ∀ a, a ∈ x'.allocated ↔
    a ∈ x.allocated ∧ ∀ i, Disabled given i → a ∉ (x.usbDevContext i).owned
  cleared : ∀ i, Disabled given i → x'.dcbaa i = none
  kept : ∀ i, ¬ Disabled given i → x'.dcbaa i = x.dcbaa i

section Frees

variable {given given' : List (SlotCommand × CmdResult)} {slots : List Nat} {x y z : XhcSlots}
  {i : Nat}

theorem not_disabled_nil (i : Nat) : ¬ Disabled [] i := by
  rintro ⟨_, hmem, _⟩
  cases hmem

theorem disabled_append :
    Disabled (given ++ given') i ↔ Disabled given i ∨ Disabled given' i := by
  unfold Disabled
  simp only [List.mem_append, or_and_right, exists_or]

theorem disabled_singleton {slotId : Nat} {result : CmdResult} :
    Disabled [(.disableSlot slotId, result)] i ↔
      i = slotId ∧ result.status.isError = false := by
  unfold Disabled
  simp only [List.mem_singleton, Prod.mk.injEq, SlotCommand.disableSlot.injEq]
  constructor
  · rintro ⟨_, ⟨rfl, rfl⟩, hstatus⟩
    exact ⟨rfl, hstatus⟩
  · rintro ⟨rfl, hstatus⟩
    exact ⟨result, ⟨rfl, rfl⟩, hstatus⟩

/-- The slots are those that commands have been given for. -/
theorem mem_of_command {result : CmdResult} (hmem : (SlotCommand.disableSlot i, result) ∈ given)
    (hmap : given.map Prod.fst = slots.map SlotCommand.disableSlot) : i ∈ slots := by
  have hcommand : SlotCommand.disableSlot i ∈ given.map Prod.fst := List.mem_map_of_mem hmem
  rw [hmap] at hcommand
  obtain ⟨j, hj, hsame⟩ := List.mem_map.mp hcommand
  cases hsame
  exact hj

/-- A slot that has been disabled had a command. -/
theorem Disabled.mem (h : Disabled given i)
    (hmap : given.map Prod.fst = slots.map SlotCommand.disableSlot) : i ∈ slots := by
  obtain ⟨result, hmem, _⟩ := h
  exact mem_of_command hmem hmap

theorem frees_none (hallocated : y.allocated = x.allocated) (hdcbaa : y.dcbaa = x.dcbaa)
    (hgiven : ∀ i, ¬ Disabled given i) : Frees given x y where
  mem_iff a := by
    rw [hallocated]
    exact ⟨fun ha => ⟨ha, fun i hi => absurd hi (hgiven i)⟩, fun ha => ha.1⟩
  cleared i hi := absurd hi (hgiven i)
  kept i _ := congrFun hdcbaa i

theorem Frees.append (h : Frees given x y) (h' : Frees given' y z)
    (hsame : ∀ i, Disabled given' i → y.usbDevContext i = x.usbDevContext i) :
    Frees (given ++ given') x z where
  mem_iff a := by
    rw [h'.mem_iff, h.mem_iff]
    constructor
    · rintro ⟨⟨ha, hfirst⟩, hsecond⟩
      refine ⟨ha, ?_⟩
      intro i hi
      rcases disabled_append.mp hi with hi | hi
      · exact hfirst i hi
      · rw [← hsame i hi]
        exact hsecond i hi
    · rintro ⟨ha, hboth⟩
      refine ⟨⟨ha, fun i hi => hboth i (disabled_append.mpr (.inl hi))⟩, ?_⟩
      intro i hi
      rw [hsame i hi]
      exact hboth i (disabled_append.mpr (.inr hi))
  cleared i hi := by
    by_cases hsecond : Disabled given' i
    · exact h'.cleared i hsecond
    · rw [h'.kept i hsecond]
      exact h.cleared i ((disabled_append.mp hi).resolve_right hsecond)
  kept i hi := by
    rw [h'.kept i fun hsecond => hi (disabled_append.mpr (.inr hsecond))]
    exact h.kept i fun hfirst => hi (disabled_append.mpr (.inl hfirst))

/-- The frees of one slot. -/
theorem Dropped.frees (h : Dropped x y i) (hnone : y.dcbaa i = none)
    (hiff : ∀ a, a ∈ y.allocated ↔ a ∈ x.allocated ∧ a ∉ (x.usbDevContext i).owned)
    {result : CmdResult} (hstatus : result.status.isError = false) :
    Frees [(.disableSlot i, result)] x y where
  mem_iff a := by
    rw [hiff]
    constructor
    · rintro ⟨ha, hnot⟩
      refine ⟨ha, ?_⟩
      intro j hj
      rw [(disabled_singleton.mp hj).1]
      exact hnot
    · rintro ⟨ha, hnot⟩
      exact ⟨ha, hnot i (disabled_singleton.mpr ⟨rfl, hstatus⟩)⟩
  cleared j hj := by
    rw [(disabled_singleton.mp hj).1]
    exact hnone
  kept j hj := by
    apply (h.others j _).2
    rintro rfl
    exact hj (disabled_singleton.mpr ⟨rfl, hstatus⟩)

end Frees

/-- One `Disable Slot` command for each slot at the places `U`, and no other command. -/
structure Orders (controller : Controller) (t : PlaceTree Nat Nat) (U : List Nat → Prop)
    (x x' : XhcSlots) (given : List (SlotCommand × CmdResult)) (slots : List Nat) : Prop where
  commands : x'.commands = x.commands ++ given
  map_eq : given.map Prod.fst = slots.map SlotCommand.disableSlot
  answers : ∀ command ∈ given, ∃ commands, command.2 = controller.answer commands command.1
  mem_iff : ∀ i, i ∈ slots ↔ ∃ l, t.place i = some l ∧ U l
  devicesFirst : DevicesFirst t slots
  frees : Frees given x x'

/-- The slots at the places `U` have been sent their commands.  No other slot has changed. -/
structure Clears (controller : Controller) (t : PlaceTree Nat Nat) (U : List Nat → Prop)
    (x x' : XhcSlots) : Prop where
  others : ∀ i, (∀ l, t.place i = some l → ¬ U l) →
    x'.usbDevContext i = x.usbDevContext i ∧ x'.dcbaa i = x.dcbaa i
  orders : ∃ given slots, Orders controller t U x x' given slots

section Clears

variable {controller : Controller} {t : PlaceTree Nat Nat} {U V W : List Nat → Prop}
  {x y z : XhcSlots}

theorem clears_refl (h : ∀ i l, t.place i = some l → ¬ U l) : Clears controller t U x x where
  others _ _ := ⟨rfl, rfl⟩
  orders := by
    refine ⟨[], [], ?_⟩
    exact
      { commands := (List.append_nil _).symm
        map_eq := rfl
        answers := List.forall_mem_nil _
        mem_iff := by
          intro i
          constructor
          · intro hmem
            cases hmem
          · rintro ⟨l, hplace, hin⟩
            exact absurd hin (h i l hplace)
        devicesFirst := .nil
        frees := frees_none rfl rfl not_disabled_nil }

theorem Clears.congr (h : Clears controller t U x y)
    (hsame : ∀ i l, t.place i = some l → (U l ↔ V l)) : Clears controller t V x y where
  others i hout := h.others i fun l hplace hin => hout l hplace ((hsame i l hplace).mp hin)
  orders := by
    obtain ⟨given, slots, horders⟩ := h.orders
    refine ⟨given, slots, { horders with mem_iff := ?_ }⟩
    intro i
    rw [horders.mem_iff]
    constructor
    · rintro ⟨l, hplace, hin⟩
      exact ⟨l, hplace, (hsame i l hplace).mp hin⟩
    · rintro ⟨l, hplace, hin⟩
      exact ⟨l, hplace, (hsame i l hplace).mpr hin⟩

/-- One part after another. -/
theorem Clears.trans {hu : ∀ l m, U l → l <+: m → U m} (h : Clears controller t U x y)
    (h' : Clears controller (t.prune U hu) V y z)
    (hunion : ∀ i l, t.place i = some l → (W l ↔ U l ∨ V l)) : Clears controller t W x z where
  others i hout := by
    have hfirst : ∀ l, t.place i = some l → ¬ U l := fun l hplace hin =>
      hout l hplace ((hunion i l hplace).mpr (.inl hin))
    have hsecond : ∀ l, (t.prune U hu).place i = some l → ¬ V l := fun l hplace hin =>
      hout l ((t.prune_place U hu).mp hplace).1
        ((hunion i l ((t.prune_place U hu).mp hplace).1).mpr (.inr hin))
    rw [(h'.others i hsecond).1, (h'.others i hsecond).2]
    exact h.others i hfirst
  orders := by
    obtain ⟨given, slots, horders⟩ := h.orders
    obtain ⟨given', slots', horders'⟩ := h'.orders
    have hpruned : ∀ i l, (t.prune U hu).place i = some l → t.place i = some l ∧ ¬ U l :=
      fun i l hplace => (t.prune_place U hu).mp hplace
    refine ⟨given ++ given', slots ++ slots', ?_⟩
    exact
      { commands := by rw [horders'.commands, horders.commands, List.append_assoc]
        map_eq := by
          rw [List.map_append, List.map_append, horders.map_eq, horders'.map_eq]
        answers := by
          intro command hmem
          rcases List.mem_append.mp hmem with hmem | hmem
          · exact horders.answers command hmem
          · exact horders'.answers command hmem
        mem_iff := by
          intro i
          rw [List.mem_append, horders.mem_iff, horders'.mem_iff]
          constructor
          · rintro (⟨l, hplace, hin⟩ | ⟨l, hplace, hin⟩)
            · exact ⟨l, hplace, (hunion i l hplace).mpr (.inl hin)⟩
            · have hplace := (hpruned i l hplace).1
              exact ⟨l, hplace, (hunion i l hplace).mpr (.inr hin)⟩
          · rintro ⟨l, hplace, hin⟩
            by_cases hfirst : U l
            · exact .inl ⟨l, hplace, hfirst⟩
            · have hsecond := ((hunion i l hplace).mp hin).resolve_left hfirst
              exact .inr ⟨l, (t.prune_place U hu).mpr ⟨hplace, hfirst⟩, hsecond⟩
        devicesFirst := by
          apply List.pairwise_append.mpr
          refine ⟨horders.devicesFirst, ?_, ?_⟩
          · apply horders'.devicesFirst.imp_of_mem
            intro i j hi hj hpair l m hl hm
            obtain ⟨l', hl', _⟩ := (horders'.mem_iff i).mp hi
            obtain ⟨m', hm', _⟩ := (horders'.mem_iff j).mp hj
            have hsame : l' = l := Option.some.inj ((hpruned i l' hl').1.symm.trans hl)
            have hsame' : m' = m := Option.some.inj ((hpruned j m' hm').1.symm.trans hm)
            exact hpair l m (hsame ▸ hl') (hsame' ▸ hm')
          · -- What is behind a slot of the first part is in the first part.
            intro i hi j hj l m hl hm hpre
            obtain ⟨l', hl', hin⟩ := (horders.mem_iff i).mp hi
            obtain ⟨m', hm', _⟩ := (horders'.mem_iff j).mp hj
            obtain ⟨hm', hout⟩ := hpruned j m' hm'
            rw [hl', Option.some.injEq] at hl
            rw [hm', Option.some.injEq] at hm
            subst hl hm
            exact hout (hu _ _ hin hpre)
        frees := by
          apply horders.frees.append horders'.frees
          intro i hi
          obtain ⟨l, hplace, _⟩ := (horders'.mem_iff i).mp (hi.mem horders'.map_eq)
          obtain ⟨hplace, hout⟩ := hpruned i l hplace
          apply (h.others i _).1
          intro m hm
          rw [hplace, Option.some.injEq] at hm
          exact hm ▸ hout }

end Clears

/-! ## The places that are reached -/

/-- At a place or behind it. -/
def AtOrBehind (l m : List Nat) : Prop := l <+: m

/-- Behind one of the slots `is`, which are those of devices of the hub at `l`. -/
def BehindAny (t : PlaceTree Nat Nat) (l : List Nat) (is : List Nat) (m : List Nat) : Prop :=
  ∃ i ∈ is, ∃ turn, t.place i = some (l ++ [turn]) ∧ l ++ [turn] <+: m

/-- What is no longer in use: the slot itself stays if its command has failed. -/
def Gone (failed : Bool) (l m : List Nat) : Prop := l <+: m ∧ (failed = true → l ≠ m)

theorem atOrBehind_mono (l : List Nat) : ∀ m m', AtOrBehind l m → m <+: m' → AtOrBehind l m' :=
  fun _ _ h h' => h.trans h'

theorem behindAny_mono (t : PlaceTree Nat Nat) (l is : List Nat) :
    ∀ m m', BehindAny t l is m → m <+: m' → BehindAny t l is m' := by
  rintro m m' ⟨i, hi, turn, hplace, hpre⟩ h
  exact ⟨i, hi, turn, hplace, hpre.trans h⟩

theorem gone_mono (failed : Bool) (l : List Nat) :
    ∀ m m', Gone failed l m → m <+: m' → Gone failed l m' := by
  rintro m m' ⟨hpre, hne⟩ h
  refine ⟨hpre.trans h, ?_⟩
  rintro hfailed rfl
  exact hne hfailed (hpre.eq_of_length_le h.length_le)

theorem gone_iff_of_success {failed : Bool} (h : failed = false) (l m : List Nat) :
    Gone failed l m ↔ AtOrBehind l m := by
  constructor
  · exact fun hgone => hgone.1
  · intro hbehind
    exact ⟨hbehind, fun hfailed => by rw [h] at hfailed; cases hfailed⟩

section Gone

variable {t : PlaceTree Nat Nat} {i : Nat} {l : List Nat}

/-- Without what is behind it, a slot is still there. -/
theorem prune_gone_self (hplace : t.place i = some l) :
    (t.prune (Gone true l) (gone_mono true l)).place i = some l :=
  (t.prune_place _ _).mpr ⟨hplace, fun hgone => hgone.2 rfl rfl⟩

/-- And no other slot is at its place or behind it. -/
theorem prune_gone_only (hplace : t.place i = some l) (j : Nat) (m : List Nat)
    (hm : (t.prune (Gone true l) (gone_mono true l)).place j = some m) :
    AtOrBehind l m ↔ j = i := by
  obtain ⟨hm, hout⟩ := (t.prune_place _ _).mp hm
  constructor
  · intro hbehind
    have hsame : l = m := by
      by_contra hne
      exact hout ⟨hbehind, fun _ => hne⟩
    exact t.unique hm (hsame ▸ hplace)
  · rintro rfl
    rw [hplace, Option.some.injEq] at hm
    rw [← hm]
    exact List.prefix_rfl

theorem prune_gone_prune (t : PlaceTree Nat Nat) (l : List Nat) :
    (t.prune (Gone true l) (gone_mono true l)).prune (AtOrBehind l) (atOrBehind_mono l) =
      t.prune (AtOrBehind l) (atOrBehind_mono l) := by
  apply t.prune_prune
  intro j m _
  constructor
  · exact .inr
  · rintro (hgone | hbehind)
    · exact hgone.1
    · exact hbehind

end Gone

section Tree

variable {t : PlaceTree Nat Nat} {x y : XhcSlots} {l : List Nat} {slotId : Nat}

theorem isPlace_dropLast {l : List Nat} (h : IsPlace l) : IsPlace l.dropLast := by
  cases l with
  | nil => exact h
  | cons root turns =>
      cases turns with
      | nil => trivial
      | cons turn turns =>
          obtain ⟨hroot, hturns, hlen⟩ := h
          refine ⟨hroot, ?_, ?_⟩
          · exact fun n hn => hturns n (List.mem_of_mem_dropLast hn)
          · exact (List.dropLast_sublist _).length_le.trans hlen

/-- The test of the loop finds the devices of the hub. -/
theorem SlotsAt.child_iff (h : SlotsAt t x) (hslot : t.place slotId = some l) (i : Nat) :
    (x.isLive i ∧ (x.usbDevContext i).parentRouteString = (x.usbDevContext slotId).routeString) ↔
      ∃ turn, t.place i = some (l ++ [turn]) := by
  have hhub := h.entry hslot
  rw [h.live_iff, hhub.route]
  constructor
  · rintro ⟨⟨m, hm⟩, hroute⟩
    have hentry := h.entry hm
    rw [hentry.parent] at hroute
    have hparent := routeOf_inj (isPlace_dropLast hentry.isPlace) hhub.isPlace hroute
    have hne : m ≠ [] := fun hnil => t.nonempty i (hnil ▸ hm)
    refine ⟨m.getLast hne, ?_⟩
    rw [hm, ← hparent, List.dropLast_append_getLast]
  · rintro ⟨turn, hplace⟩
    refine ⟨⟨_, hplace⟩, ?_⟩
    rw [(h.entry hplace).parent, List.dropLast_concat]

/-- Looking through all entries, the loop comes to all slots behind the hub. -/
theorem SlotsAt.behindAny_iff (h : SlotsAt t x) {i : Nat} {m : List Nat}
    (hplace : t.place i = some m) :
    BehindAny t l slotIndices m ↔ Gone true l m := by
  constructor
  · rintro ⟨j, _, turn, _, hpre⟩
    refine ⟨(List.prefix_append _ _).trans hpre, ?_⟩
    rintro - rfl
    have hle := hpre.length_le
    rw [List.length_append, List.length_singleton] at hle
    omega
  · rintro ⟨⟨rest, rfl⟩, hne⟩
    cases rest with
    | nil => exact absurd (List.append_nil l).symm (hne rfl)
    | cons turn rest =>
        have hpre : l ++ [turn] <+: l ++ turn :: rest := ⟨rest, by simp⟩
        obtain ⟨j, hj⟩ := t.exists_prefix hplace (by simp) hpre
        exact ⟨j, (h.entry hj).mem, turn, hj, hpre⟩

end Tree

/-! ## The function -/

section Disable

variable {controller : Controller} {t : PlaceTree Nat Nat} {x y : XhcSlots} {l : List Nat}
  {slotId i left : Nat}

/-- A command that leaves the slots enabled. -/
theorem SlotsInv.record (h : SlotsInv t x) {commands : List (SlotCommand × CmdResult)}
    (hheld : ∀ i l, t.place i = some l → heldSlots commands i = true) :
    SlotsInv t { x with commands := commands } where
  tree :=
    { live_iff := h.tree.live_iff
      entry := by
        intro i l hplace
        have hentry := h.tree.entry hplace
        exact
          { slotId := hentry.slotId
            mem := hentry.mem
            isPlace := hentry.isPlace
            route := hentry.route
            parent := hentry.parent
            held := hheld i l hplace } }
  memory :=
    { nodup := h.memory.nodup
      allocated := h.memory.allocated
      apart := h.memory.apart
      dcbaa := h.memory.dcbaa
      output := h.memory.output
      rings := h.memory.rings
      fresh := h.memory.fresh
      once := h.memory.once }
  contexts := h.contexts.frame fun _ _ hplace => ⟨hplace, rfl⟩

/-- A slot whose command has failed is given up. -/
theorem dropped_lost (h : SlotsInv t x) (i : Nat) :
    Dropped x (x.modify i fun c => { c with slotId := 0 }) i where
  dead := by simp [XhcSlots.isLive, XhcSlots.modify]
  others j hj := by simp [XhcSlots.modify, hj]
  held _ _ := rfl
  next := rfl
  once := h.memory.once
  freed := .inr ⟨rfl, rfl⟩

/-- What is left of a slot that is released. -/
theorem release_spec {allocated : List Nat}
    (hfree : freeAll (x.usbDevContext i).owned x.allocated = some allocated) :
    ∃ x', x.release i = some x' ∧ x'.isLive i = false ∧
      (∀ j, j ≠ i → x'.usbDevContext j = x.usbDevContext j ∧ x'.dcbaa j = x.dcbaa j) ∧
      x'.dcbaa i = none ∧ x'.allocated = allocated ∧ x'.nextAddress = x.nextAddress ∧
      x'.commands = x.commands := by
  unfold XhcSlots.release
  rw [hfree]
  refine ⟨_, rfl, ?_, ?_, Function.update_self _ _ _, rfl, rfl, rfl⟩
  · simp [XhcSlots.isLive, XhcSlots.modify]
  · intro j hj
    simp [XhcSlots.modify, hj]

/-- A slot whose command has succeeded is released. -/
theorem dropped_released (h : SlotsInv t x) (hplace : t.place i = some l) {result : CmdResult}
    (hstatus : result.status.isError = false) :
    ∃ x', XhcSlots.release i { x with
        commands := x.commands ++ [(.disableSlot i, result)] } = some x' ∧
      x'.commands = x.commands ++ [(.disableSlot i, result)] ∧ Dropped x x' i ∧
        Frees [(.disableSlot i, result)] x x' := by
  have hlive := (h.tree.live_iff i).mpr ⟨l, hplace⟩
  obtain ⟨allocated, hfree, honce, hiff⟩ := freeAll_spec (h.memory.nodup i hlive)
    (h.memory.allocated i hlive) h.memory.once
  obtain ⟨x', hrun, hdead, hothers, hnone, hallocated, hnext, hcommands⟩ :=
    release_spec (x := { x with commands := x.commands ++ [(.disableSlot i, result)] }) hfree
  rw [← hallocated] at honce hiff
  have hdropped : Dropped x x' i :=
    { dead := hdead
      others := hothers
      held := by
        intro j hj
        rw [hcommands, heldSlots_append, heldAfter, hstatus, if_neg Bool.false_ne_true,
          Function.update_of_ne hj]
      next := hnext
      once := honce
      freed := .inl ⟨hnone, hiff⟩ }
  exact ⟨x', hrun, hcommands, hdropped, hdropped.frees hnone hiff hstatus⟩

/-- What a call does to the slot `slotId`, of a device at `l`, and to those behind it. -/
structure Disables (controller : Controller) (t : PlaceTree Nat Nat) (slotId : Nat)
    (l : List Nat) (status : EfiStatus) (x x' : XhcSlots) : Prop where
  answer : ∃ commands, status = (controller.answer commands (.disableSlot slotId)).status
  own : ∀ given, x'.commands = x.commands ++ given → ∃ result, result.status = status ∧
    ∀ result', (SlotCommand.disableSlot slotId, result') ∈ given ↔ result' = result
  inv : SlotsInv (t.prune (Gone status.isError l) (gone_mono _ _)) x'
  clears : Clears controller t (AtOrBehind l) x x'
  failed : status.isError = true →
    x'.usbDevContext slotId = x.usbDevContext slotId ∧ x'.dcbaa slotId = x.dcbaa slotId

/-- A slot that could not be disabled is given up by the hub, so that it is gone either way. -/
theorem Disables.lose {status : EfiStatus} (h : Disables controller t i l status x y)
    (hplace : t.place i = some l) :
    SlotsInv (t.prune (AtOrBehind l) (atOrBehind_mono l))
        (if status.isError then y.modify i fun c => { c with slotId := 0 } else y) ∧
      Clears controller t (AtOrBehind l) x
        (if status.isError then y.modify i fun c => { c with slotId := 0 } else y) := by
  by_cases hstatus : status.isError = true
  · rw [if_pos hstatus]
    have hinv := h.inv
    rw [hstatus] at hinv
    have hdropped := dropped_lost hinv i
    obtain ⟨given, slots, horders⟩ := h.clears.orders
    have hsame : Frees given x (y.modify i fun c => { c with slotId := 0 }) :=
      { mem_iff := horders.frees.mem_iff
        cleared := horders.frees.cleared
        kept := horders.frees.kept }
    refine ⟨?_, ?_, given, slots, { horders with frees := hsame }⟩
    · rw [← prune_gone_prune]
      exact hinv.drop (prune_gone_self hplace) hdropped (atOrBehind_mono l)
        (prune_gone_only hplace)
    · intro j hout
      have hne : j ≠ i := by
        rintro rfl
        exact hout l hplace List.prefix_rfl
      rw [(hdropped.others j hne).1, (hdropped.others j hne).2]
      exact h.clears.others j hout
  · rw [if_neg hstatus]
    refine ⟨?_, h.clears⟩
    rw [← t.prune_congr (atOrBehind_mono l) fun j m _ =>
      gone_iff_of_success (Bool.eq_false_iff.mpr hstatus) l m]
    exact h.inv

/-- The loop, if the calls in it do what they are to do. -/
theorem disableChildren_spec (hhub : t.place slotId = some l) (h : SlotsInv t x)
    (hcall : ∀ {t x i m}, SlotsInv t x → t.place i = some m → l.length + 1 = m.length →
      ∃ status x', XhcSlots.xhcDisableSlotCmd controller left i x = some (status, x') ∧
        Disables controller t i m status x x') (is : List Nat) :
    ∃ x', XhcSlots.disableChildren (XhcSlots.xhcDisableSlotCmd controller left) slotId is x =
        some x' ∧
      SlotsInv (t.prune (BehindAny t l is) (behindAny_mono t l is)) x' ∧
        Clears controller t (BehindAny t l is) x x' := by
  induction is generalizing t x with
  | nil =>
      have hnone : ∀ i m, t.place i = some m → ¬ BehindAny t l [] m := by
        rintro _ _ _ ⟨_, hmem, _⟩
        cases hmem
      refine ⟨x, rfl, ?_, clears_refl hnone⟩
      rw [t.prune_eq_self hnone]
      exact h
  | cons i is ih =>
      rw [XhcSlots.disableChildren]
      by_cases hchild : ∃ turn, t.place i = some (l ++ [turn])
      · rw [if_pos ((h.tree.child_iff hhub i).mpr hchild)]
        obtain ⟨turn, hplace⟩ := hchild
        obtain ⟨status, y, hrun, hdisables⟩ := hcall h hplace (by simp)
        obtain ⟨hinv, hclears⟩ := hdisables.lose hplace
        rw [(h.tree.entry hplace).slotId, hrun]
        -- The hub itself is not behind its port.
        have hstays : (t.prune (AtOrBehind (l ++ [turn])) (atOrBehind_mono _)).place slotId =
            some l := by
          refine (t.prune_place _ _).mpr ⟨hhub, ?_⟩
          intro hpre
          have hle := hpre.length_le
          rw [List.length_append, List.length_singleton] at hle
          omega
        obtain ⟨z, hloop, hrest, hmore⟩ := ih hstays hinv
        have hunion : ∀ j m, t.place j = some m →
            (BehindAny t l (i :: is) m ↔ AtOrBehind (l ++ [turn]) m ∨
              BehindAny (t.prune (AtOrBehind (l ++ [turn])) (atOrBehind_mono _)) l is m) := by
          intro j m _
          constructor
          · rintro ⟨k, hk, turn', hplace', hpre⟩
            by_cases hsame : turn' = turn
            · exact .inl (hsame ▸ hpre)
            · have hne : k ≠ i := by
                rintro rfl
                rw [hplace, Option.some.injEq] at hplace'
                simp only [List.append_cancel_left_eq, List.cons.injEq, and_true] at hplace'
                exact hsame hplace'.symm
              refine .inr ⟨k, List.mem_of_ne_of_mem hne hk, turn', ?_, hpre⟩
              refine (t.prune_place _ _).mpr ⟨hplace', ?_⟩
              intro hother
              have heq := hother.eq_of_length (by simp)
              simp only [List.append_cancel_left_eq, List.cons.injEq, and_true] at heq
              exact hsame heq.symm
          · rintro (hpre | ⟨k, hk, turn', hplace', hpre⟩)
            · exact ⟨i, List.mem_cons_self, turn, hplace, hpre⟩
            · exact ⟨k, List.mem_cons_of_mem _ hk, turn', ((t.prune_place _ _).mp hplace').1,
                hpre⟩
        refine ⟨z, hloop, ?_, hclears.trans hmore hunion⟩
        rw [← t.prune_prune (behindAny_mono t l (i :: is)) hunion]
        exact hrest
      · rw [if_neg fun htest => hchild ((h.tree.child_iff hhub i).mp htest)]
        obtain ⟨z, hloop, hrest, hmore⟩ := ih hhub h
        have hsame : ∀ j m, t.place j = some m →
            (BehindAny t l is m ↔ BehindAny t l (i :: is) m) := by
          intro j m _
          constructor
          · rintro ⟨k, hk, turn, hplace⟩
            exact ⟨k, List.mem_cons_of_mem _ hk, turn, hplace⟩
          · rintro ⟨k, hk, turn, hplace, hpre⟩
            rcases List.mem_cons.mp hk with rfl | hk
            · exact absurd ⟨turn, hplace⟩ hchild
            · exact ⟨k, hk, turn, hplace, hpre⟩
        refine ⟨z, hloop, ?_, hmore.congr hsame⟩
        rw [← t.prune_congr (behindAny_mono t l (i :: is)) hsame]
        exact hrest

/-- The command for the slot itself comes last. -/
theorem Clears.last (h : Clears controller t (Gone true l) x y) (hslot : t.place slotId = some l)
    {result : CmdResult} {z : XhcSlots}
    (hanswer : result = controller.answer y.commands (.disableSlot slotId))
    (hcommands : z.commands = y.commands ++ [(.disableSlot slotId, result)])
    (hothers : ∀ j, j ≠ slotId →
      z.usbDevContext j = y.usbDevContext j ∧ z.dcbaa j = y.dcbaa j)
    (hfrees : Frees [(.disableSlot slotId, result)] y z) :
    Clears controller t (AtOrBehind l) x z where
  others j hout := by
    have hne : j ≠ slotId := by
      rintro rfl
      exact hout l hslot List.prefix_rfl
    rw [(hothers j hne).1, (hothers j hne).2]
    exact h.others j fun m hm hgone => hout m hm hgone.1
  orders := by
    obtain ⟨given, slots, horders⟩ := h.orders
    refine ⟨given ++ [(.disableSlot slotId, result)], slots ++ [slotId], ?_⟩
    exact
      { commands := by rw [hcommands, horders.commands, List.append_assoc]
        map_eq := by
          rw [List.map_append, List.map_append, horders.map_eq]
          rfl
        answers := by
          intro command hmem
          rcases List.mem_append.mp hmem with hmem | hmem
          · exact horders.answers command hmem
          · rw [List.mem_singleton.mp hmem]
            exact ⟨y.commands, hanswer⟩
        mem_iff := by
          intro j
          rw [List.mem_append, List.mem_singleton, horders.mem_iff]
          constructor
          · rintro (⟨m, hm, hgone⟩ | rfl)
            · exact ⟨m, hm, hgone.1⟩
            · exact ⟨l, hslot, List.prefix_rfl⟩
          · rintro ⟨m, hm, hbehind⟩
            by_cases hsame : l = m
            · exact .inr (t.unique hm (hsame ▸ hslot))
            · exact .inl ⟨m, hm, hbehind, fun _ => hsame⟩
        devicesFirst := by
          -- The slots before this one are of devices behind it.
          apply List.pairwise_append.mpr
          refine ⟨horders.devicesFirst, List.pairwise_singleton _ _, ?_⟩
          intro j hj k hk m m' hm hm' hpre
          obtain ⟨m'', hm'', hgone⟩ := (horders.mem_iff j).mp hj
          rw [List.mem_singleton.mp hk, hslot, Option.some.injEq] at hm'
          rw [hm, Option.some.injEq] at hm''
          subst hm' hm''
          exact hgone.2 rfl (hgone.1.eq_of_length_le hpre.length_le)
        frees := by
          apply horders.frees.append hfrees
          intro j hj
          rw [(disabled_singleton.mp hj).1]
          apply (h.others slotId _).1
          intro m hm hgone
          rw [hslot, Option.some.injEq] at hm
          exact hgone.2 rfl hm }

/-- Only that command is one for the slot. -/
theorem Clears.own (h : Clears controller t (Gone true l) x y) (hslot : t.place slotId = some l)
    {result : CmdResult} {commands given : List (SlotCommand × CmdResult)}
    (hcommands : commands = y.commands ++ [(.disableSlot slotId, result)])
    (hgiven : commands = x.commands ++ given) (result' : CmdResult) :
    (SlotCommand.disableSlot slotId, result') ∈ given ↔ result' = result := by
  obtain ⟨before, slots, horders⟩ := h.orders
  rw [hcommands, horders.commands, List.append_assoc, List.append_cancel_left_eq] at hgiven
  rw [← hgiven, List.mem_append, List.mem_singleton]
  constructor
  · rintro (hmem | hsame)
    · obtain ⟨m, hm, hgone⟩ := (horders.mem_iff slotId).mp (mem_of_command hmem horders.map_eq)
      rw [hslot, Option.some.injEq] at hm
      exact absurd hm (hgone.2 rfl)
    · exact (Prod.mk.injEq _ _ _ _ ▸ hsame).2
  · rintro rfl
    exact .inr rfl

theorem SlotsAt.length_le (h : SlotsAt t x) (hplace : t.place i = some l) : l.length ≤ 6 := by
  have hisPlace := (h.entry hplace).isPlace
  cases l with
  | nil => exact Nat.zero_le _
  | cons root turns => exact Nat.succ_le_succ hisPlace.2.2

/-- Whichever commands fail, the call returns without an invalid free.  All slots behind the one
that it disables are out of use, and this one is unless its own command has failed. -/
theorem xhcDisableSlotCmd_spec (controller : Controller) (h : SlotsInv t x)
    (hslot : t.place slotId = some l) (hleft : 7 ≤ left + l.length) :
    ∃ status x', XhcSlots.xhcDisableSlotCmd controller left slotId x = some (status, x') ∧
      Disables controller t slotId l status x x' := by
  induction left generalizing slotId x t l with
  | zero =>
      have hlength := h.tree.length_le hslot
      omega
  | succ left ih =>
      -- The loop over all entries disables the devices behind the slot.
      obtain ⟨y, hloop, hinv, hclears⟩ := disableChildren_spec hslot h
        (fun h hplace hlength => ih h hplace (by omega)) slotIndices
      have hbehind : ∀ i m, t.place i = some m → (BehindAny t l slotIndices m ↔ Gone true l m) :=
        fun i m hm => h.tree.behindAny_iff hm
      rw [t.prune_congr (gone_mono true l) hbehind] at hinv
      replace hclears := hclears.congr hbehind
      have hstays := prune_gone_self hslot
      obtain ⟨result, hresult⟩ :
          ∃ result, result = controller.answer y.commands (.disableSlot slotId) := ⟨_, rfl⟩
      rw [XhcSlots.xhcDisableSlotCmd, hloop]
      unfold XhcSlots.cmdTransfer
      simp only [← hresult]
      -- If its own command fails the slot stays, without the devices behind it.
      by_cases hstatus : result.status.isError = true
      · rw [if_pos hstatus]
        refine ⟨result.status, _, rfl, ⟨y.commands, by rw [hresult]⟩,
          fun _ hgiven => ⟨result, rfl, hclears.own hslot rfl hgiven⟩, ?_,
          hclears.last hslot hresult rfl (fun _ _ => ⟨rfl, rfl⟩) ?_, ?_⟩
        · rw [hstatus]
          apply hinv.record
          intro j m hm
          rw [heldSlots_append, heldAfter, if_pos hstatus]
          exact (hinv.tree.entry hm).held
        · refine frees_none (by rfl) (by rfl) ?_
          intro j hj
          rw [(disabled_singleton.mp hj).2] at hstatus
          exact Bool.false_ne_true hstatus
        · intro _
          apply hclears.others slotId
          intro m hm hgone
          rw [hslot, Option.some.injEq] at hm
          exact hgone.2 rfl hm
      · rw [if_neg hstatus]
        have hsuccess := Bool.eq_false_iff.mpr hstatus
        obtain ⟨x', hrelease, hcommands, hdrop, hfrees⟩ := dropped_released hinv hstays hsuccess
        rw [hrelease]
        refine ⟨result.status, x', rfl, ⟨y.commands, by rw [hresult]⟩,
          fun _ hgiven => ⟨result, rfl, hclears.own hslot hcommands hgiven⟩, ?_,
          hclears.last hslot hresult hcommands hdrop.others hfrees,
          fun hfailed => absurd hfailed hstatus⟩
        have hend := hinv.drop hstays hdrop (atOrBehind_mono l) (prune_gone_only hslot)
        rw [prune_gone_prune, t.prune_congr (gone_mono result.status.isError l) fun j m _ =>
          (gone_iff_of_success hsuccess l m).symm] at hend
        exact hend

/-- No slot needs more than six calls within each other. -/
theorem xhcDisableSlotCmd_place (controller : Controller) (h : SlotsInv t x)
    (hslot : t.place slotId = some l) (hleft : 6 ≤ left) :
    ∃ status x', XhcSlots.xhcDisableSlotCmd controller left slotId x = some (status, x') ∧
      Disables controller t slotId l status x x' := by
  have hnonempty : l ≠ [] := by
    rintro rfl
    exact t.nonempty slotId hslot
  have hlength := List.length_pos_of_ne_nil hnonempty
  exact xhcDisableSlotCmd_spec controller h hslot (by omega)

end Disable

end XhciDxe
end EfiApps
