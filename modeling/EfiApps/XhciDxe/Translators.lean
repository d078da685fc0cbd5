import EfiApps.XhciDxe.SlotRuns

/-!
# Transaction translators

The slot context of a full or low speed device names the high speed hub where its way leaves
the high speed bus, and the port of that hub.  `XhcInitializeDeviceSlot` takes both from the
hub of the device, or names that hub.
-/

namespace EfiApps
namespace XhciDxe

open PciMisc (EfiStatus)

/-! ## Where the high speed bus ends -/

/-- The hub in slot `j`, at `m`, runs at high speed, and the next device on the way to `l` does
not. -/
structure Crossing (t : PlaceTree Nat Nat) (x : XhcSlots) (j : Nat) (m l : List Nat) : Prop where
  place : t.place j = some m
  high : (x.usbDevContext j).outputSlot.speed = UsbSpeed.high.toNat + 1
  slow : ∃ turn k, m ++ [turn] <+: l ∧ t.place k = some (m ++ [turn]) ∧
    (x.usbDevContext k).outputSlot.speed < UsbSpeed.high.toNat + 1

/-- The device at `l` and the hubs before it have been addressed; hubs number their ports from
`1`. -/
structure OnBus (t : PlaceTree Nat Nat) (x : XhcSlots) (l : List Nat) : Prop where
  ports : ∀ turn ∈ l.tail, turn ≠ 0
  addressed : ∀ m j, m <+: l → t.place j = some m → (x.usbDevContext j).outputSlot ≠ {}

/-- The `TT` fields are those of the crossing on the way to `l`; if there is none they are
zero. -/
structure NamesCrossing (t : PlaceTree Nat Nat) (x : XhcSlots) (l : List Nat)
    (slot : SlotContext) : Prop where
  hub : ∀ j, j ≠ 0 → (slot.ttHubSlotId = j ↔ ∃ m, Crossing t x j m l)
  port : slot.ttHubSlotId ≠ 0 → ∃ m port, t.place slot.ttHubSlotId = some m ∧
    slot.ttPortNum = BitVec.ofNat 8 port ∧ childPlace m port <+: l
  none : slot.ttHubSlotId = 0 → slot.ttPortNum = 0
  speed : slot.ttHubSlotId ≠ 0 → slot.speed ≠ UsbSpeed.high.toNat + 1

section Crossing

variable {t : PlaceTree Nat Nat} {x : XhcSlots} {i j p port turn : Nat}
  {l m m' : List Nat} {deviceSpeed : UsbSpeed} {slot : SlotContext}

theorem Crossing.mono (h : Crossing t x j m l) (hpre : l <+: m') : Crossing t x j m m' := by
  obtain ⟨turn, k, hturn, hplace, hspeed⟩ := h.slow
  exact ⟨h.place, h.high, turn, k, hturn.trans hpre, hplace, hspeed⟩

/-- A crossing is on the way to the hub, or at it. -/
theorem crossing_concat (hplace : t.place i = some (l ++ [turn])) (hhub : t.place p = some l) :
    Crossing t x j m (l ++ [turn]) ↔ Crossing t x j m l ∨
      j = p ∧ m = l ∧ (x.usbDevContext p).outputSlot.speed = UsbSpeed.high.toNat + 1 ∧
        (x.usbDevContext i).outputSlot.speed < UsbSpeed.high.toNat + 1 := by
  constructor
  · intro h
    obtain ⟨turn', k, hpre, hk, hspeed⟩ := h.slow
    rcases List.prefix_concat_iff.mp hpre with hsame | hshort
    · obtain ⟨rfl, hturn⟩ := List.append_inj' hsame rfl
      rw [hsame] at hk
      have hnode : k = i := t.unique hk hplace
      have hslot : j = p := t.unique h.place hhub
      subst hnode hslot
      exact .inr ⟨rfl, rfl, h.high, hspeed⟩
    · exact .inl ⟨h.place, h.high, turn', k, hshort, hk, hspeed⟩
  · rintro (h | ⟨rfl, rfl, hhigh, hslow⟩)
    · exact h.mono (List.prefix_append _ _)
    · exact ⟨hhub, hhigh, turn, i, List.prefix_rfl, hplace, hslow⟩

/-- A device at the root hub has no hub before it. -/
theorem not_crossing_root (root : Nat) : ¬ Crossing t x j m [root] := by
  intro h
  obtain ⟨turn, k, hpre, hk, _⟩ := h.slow
  have hlength := hpre.length_le
  rw [List.length_append, List.length_singleton, List.length_singleton] at hlength
  have hnil : m = [] := List.length_eq_zero_iff.mp (by omega)
  exact t.nonempty j (hnil ▸ h.place)

theorem namesCrossing_root {root : Nat} (hhub : slot.ttHubSlotId = 0)
    (hport : slot.ttPortNum = 0) : NamesCrossing t x [root] slot where
  hub j hpos := by
    rw [hhub]
    exact ⟨fun heq => absurd heq.symm hpos, fun ⟨_, h⟩ => absurd h (not_crossing_root root)⟩
  port hpos := absurd hhub hpos
  none _ := hport
  speed hpos := absurd hhub hpos

/-- Behind a crossing its fields are inherited. -/
theorem NamesCrossing.inherit (h : NamesCrossing t x l (x.usbDevContext p).outputSlot)
    (hhub : t.place p = some l) (hplace : t.place i = some (l ++ [turn]))
    (hbehind : (x.usbDevContext p).outputSlot.ttHubSlotId ≠ 0)
    (httHub : slot.ttHubSlotId = (x.usbDevContext p).outputSlot.ttHubSlotId)
    (httPort : slot.ttPortNum = (x.usbDevContext p).outputSlot.ttPortNum)
    (hspeed : slot.speed ≠ UsbSpeed.high.toNat + 1) : NamesCrossing t x (l ++ [turn]) slot where
  hub j hpos := by
    rw [httHub, h.hub j hpos]
    constructor
    · rintro ⟨m, hcrossing⟩
      exact ⟨m, hcrossing.mono (List.prefix_append _ _)⟩
    · rintro ⟨m, hcrossing⟩
      -- The hub does not run at high speed.
      rcases (crossing_concat hplace hhub).mp hcrossing with hold | ⟨_, _, hhigh, _⟩
      · exact ⟨m, hold⟩
      · exact absurd hhigh (h.speed hbehind)
  port _ := by
    obtain ⟨m, port, hm, hport, hpre⟩ := h.port hbehind
    rw [httHub, httPort]
    exact ⟨m, port, hm, hport, hpre.trans (List.prefix_append _ _)⟩
  none hzero := by
    rw [httHub] at hzero
    exact absurd hzero hbehind
  speed _ := hspeed

/-- The hub itself is the crossing. -/
theorem NamesCrossing.first (h : NamesCrossing t x l (x.usbDevContext p).outputSlot)
    (hhub : t.place p = some l) (hplace : t.place i = some (childPlace l port)) (hpos : p ≠ 0)
    (hfirst : (x.usbDevContext p).outputSlot.ttHubSlotId = 0)
    (hhigh : (x.usbDevContext p).outputSlot.speed = UsbSpeed.high.toNat + 1)
    (hslow : (x.usbDevContext i).outputSlot.speed < UsbSpeed.high.toNat + 1)
    (httHub : (x.usbDevContext i).outputSlot.ttHubSlotId = p)
    (httPort : (x.usbDevContext i).outputSlot.ttPortNum = BitVec.ofNat 8 port) :
    NamesCrossing t x (childPlace l port) (x.usbDevContext i).outputSlot where
  hub j hj := by
    rw [httHub]
    constructor
    · rintro rfl
      exact ⟨l, (crossing_concat hplace hhub).mpr (.inr ⟨rfl, rfl, hhigh, hslow⟩)⟩
    · rintro ⟨m, hcrossing⟩
      rcases (crossing_concat hplace hhub).mp hcrossing with hold | ⟨heq, _⟩
      · exact absurd (((h.hub j hj).mpr ⟨m, hold⟩).symm.trans hfirst) hj
      · exact heq.symm
  port _ := by
    rw [httHub]
    exact ⟨l, port, hhub, httPort, List.prefix_rfl⟩
  none hzero := absurd (httHub.symm.trans hzero) hpos
  speed _ := Nat.ne_of_lt hslow

/-- There is no crossing yet. -/
theorem NamesCrossing.before (h : NamesCrossing t x l (x.usbDevContext p).outputSlot)
    (hhub : t.place p = some l) (hplace : t.place i = some (l ++ [turn]))
    (hfirst : (x.usbDevContext p).outputSlot.ttHubSlotId = 0)
    (hspeed : ¬ ((x.usbDevContext p).outputSlot.speed = UsbSpeed.high.toNat + 1 ∧
      (x.usbDevContext i).outputSlot.speed < UsbSpeed.high.toNat + 1))
    (httHub : (x.usbDevContext i).outputSlot.ttHubSlotId = 0)
    (httPort : (x.usbDevContext i).outputSlot.ttPortNum = 0) :
    NamesCrossing t x (l ++ [turn]) (x.usbDevContext i).outputSlot where
  hub j hj := by
    rw [httHub]
    constructor
    · intro heq
      exact absurd heq.symm hj
    · rintro ⟨m, hcrossing⟩
      rcases (crossing_concat hplace hhub).mp hcrossing with hold | ⟨_, _, hboth⟩
      · exact hfirst.symm.trans ((h.hub j hj).mpr ⟨m, hold⟩)
      · exact absurd hboth hspeed
  port hpos := absurd httHub hpos
  none _ := httPort
  speed hpos := absurd httHub hpos

/-- What the function does for a device of a hub. -/
theorem NamesCrossing.child (h : NamesCrossing t x l (x.usbDevContext p).outputSlot)
    (hhub : t.place p = some l) (hplace : t.place i = some (childPlace l port)) (hpos : p ≠ 0)
    {a : BitVec 8}
    (hslot : (x.usbDevContext i).outputSlot =
      { XhcSlots.ttFields (x.usbDevContext p).outputSlot p port deviceSpeed
          (newSlot (childPlace l port) deviceSpeed) with deviceAddress := a }) :
    NamesCrossing t x (childPlace l port) (x.usbDevContext i).outputSlot := by
  have hbehind : ¬ ((x.usbDevContext p).outputSlot.ttPortNum = 0 ∧
      (x.usbDevContext p).outputSlot.ttHubSlotId = 0) →
        (x.usbDevContext p).outputSlot.ttHubSlotId ≠ 0 :=
    fun hzero hnone => hzero ⟨h.none hnone, hnone⟩
  unfold XhcSlots.ttFields at hslot
  split_ifs at hslot with hzero hslow hhigh
  · apply h.first hhub hplace hpos hzero.2 hslow.1
    · rw [hslot]
      exact Nat.succ_lt_succ hslow.2
    · rw [hslot]
    · rw [hslot]
  · apply h.before hhub hplace hzero.2
    · rintro ⟨hhigh, hlow⟩
      rw [hslot] at hlow
      exact hslow ⟨hhigh, Nat.lt_of_succ_lt_succ hlow⟩
    · rw [hslot]
      rfl
    · rw [hslot]
      rfl
  · -- A high speed device runs at the speed of its hub.
    apply h.inherit hhub hplace (hbehind hzero)
    · rw [hslot]
    · rw [hslot]
    · rw [hslot]
      exact h.speed (hbehind hzero)
  · apply h.inherit hhub hplace (hbehind hzero)
    · rw [hslot]
    · rw [hslot]
    · rw [hslot]
      show deviceSpeed.toNat + 1 ≠ UsbSpeed.high.toNat + 1
      cases deviceSpeed with
      | high => exact absurd rfl hhigh
      | full => decide
      | low => decide
      | super => decide

end Crossing

/-! ## Every run -/

section Runs

variable {controller : Controller} {t : PlaceTree Nat Nat} {x : XhcSlots} {i left : Nat}
  {l : List Nat}

theorem routeString_ne_zero (h : IsPlace l) (hlength : 2 ≤ l.length)
    (hturns : ∀ turn ∈ l.tail, turn ≠ 0) : (routeOf l).routeString ≠ 0 := by
  match l, h, hlength, hturns with
  | root :: turn :: turns, ⟨_, hturns, hlen⟩, _, hnonzero =>
      intro hzero
      have hbits := congrArg BitVec.toNat hzero
      simp only [routeOf, BitVec.toNat_ofNat] at hbits
      rw [Nat.mod_eq_of_lt (ofDigits_turns_lt hturns hlen), Nat.ofDigits_cons] at hbits
      have hturn := hnonzero turn List.mem_cons_self
      simp at hbits
      omega

theorem OnBus.hub {turn : Nat} (h : OnBus t x (l ++ [turn])) : OnBus t x l where
  ports turn' hmem := by
    apply h.ports
    cases l with
    | nil => cases hmem
    | cons root turns => exact List.mem_append_left _ hmem
  addressed m j hpre := h.addressed m j (hpre.trans (List.prefix_append _ _))

/-- By induction on the way to the device. -/
theorem SlotsInv.namesCrossing (hinv : SlotsInv t x) (hplace : t.place i = some l)
    (hbus : OnBus t x l) : NamesCrossing t x l (x.usbDevContext i).outputSlot := by
  induction l using List.reverseRecOn generalizing i with
  | nil => exact absurd hplace (t.nonempty i)
  | append_singleton l turn ih =>
      have haddressed := hbus.addressed _ i List.prefix_rfl hplace
      obtain ⟨slot, a, ⟨port, deviceSpeed, hchild, hslot⟩, hcopy⟩ :=
        (hinv.contexts i _ hplace).resolve_left haddressed
      rw [List.dropLast_concat] at hchild hslot
      by_cases hroot : l = []
      · subst hroot
        have hzero : slot = newSlot [turn] deviceSpeed := by
          rcases hslot with ⟨_, hslot⟩ | ⟨hstring, _⟩
          · exact hslot
          · exact absurd rfl hstring
        apply namesCrossing_root
        · rw [hcopy, hzero]
          rfl
        · rw [hcopy, hzero]
          rfl
      · have hisPlace := (hinv.tree.entry hplace).isPlace
        have hlength : 2 ≤ (l ++ [turn]).length := by
          have hpos := List.length_pos_of_ne_nil hroot
          rw [List.length_append, List.length_singleton]
          omega
        have hstring := routeString_ne_zero hisPlace hlength hbus.ports
        rcases hslot with ⟨hzero, _⟩ | ⟨_, p, hhub, hslot⟩
        · exact absurd hzero hstring
        · have hpos : p ≠ 0 := by
            obtain ⟨n, _, hn⟩ := List.mem_map.mp (hinv.tree.entry hhub).mem
            omega
          have hnames := ih hhub hbus.hub
          rw [hslot] at hcopy
          rw [hchild] at hplace hcopy ⊢
          exact hnames.child hhub hplace hpos hcopy

/-- In every state that is reached, the slot context of a device that has been addressed names
the hub where the way to it leaves the high speed bus, and a port of that hub that the way goes
through; if the way does not leave the high speed bus, its `TT` fields are zero. -/
theorem ttFields_name_crossing (hregular : controller.Regular) (hleft : 6 ≤ left)
    (h : SlotsReachable controller left x) :
    ∃ t, SlotsAt t x ∧ ∀ i l, t.place i = some l → OnBus t x l →
      NamesCrossing t x l (x.usbDevContext i).outputSlot := by
  obtain ⟨t, hinv⟩ := h.slotsInv hregular hleft
  refine ⟨t, hinv.tree, ?_⟩
  intro i l hplace hbus
  exact hinv.namesCrossing hplace hbus

/-- The hub is where the way to the device behind it leaves the high speed bus. -/
theorem ttFields_name_crossing_behindHub :
    (∃ t, SlotsAt t behindHub ∧ ∀ i l, t.place i = some l → OnBus t behindHub l →
      NamesCrossing t behindHub l (behindHub.usbDevContext i).outputSlot) ∧
        (behindHub.usbDevContext 2).outputSlot.ttHubSlotId = 1 :=
  ⟨ttFields_name_crossing fourSlots_regular (Nat.le_refl 6) behindHub_reachable,
    by decide +kernel⟩

end Runs

end XhciDxe
end EfiApps
