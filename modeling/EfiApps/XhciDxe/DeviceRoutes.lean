import Mathlib.Data.Nat.Digits.Lemmas

/-!
# Routes of devices

`XhcPollPortStatusChange` names a device by its `USB_DEV_ROUTE`: the port of the root hub, and
four bits for each hub between, with the port that leads on.  It makes the route of a device
from that of its hub.

A device is at the place that its ports lead to.  The four bits tell the ports of a hub apart,
but not those from `14` on.
-/

namespace EfiApps
namespace XhciDxe

/-- `USB_DEV_ROUTE`.  Its `Dword` is zero if all fields are. -/
structure UsbDevRoute where
  routeString : BitVec 20 := 0
  rootPortNum : BitVec 8 := 0
  tierNum : BitVec 4 := 0
  deriving DecidableEq, Repr

/-- The four bits for a port of a hub. -/
def hubTurn (port : Nat) : Nat := if port < 14 then port else 15

/-- `RouteChart`, for the device at `Port` of the hub with `ParentRouteChart`. -/
def routeChart (parentRouteChart : UsbDevRoute) (port : Nat) : UsbDevRoute :=
  if parentRouteChart = {} then
    { routeString := 0, rootPortNum := BitVec.ofNat 8 (port + 1), tierNum := 1 }
  else
    { routeString := parentRouteChart.routeString |||
        BitVec.ofNat 20 (hubTurn port <<< (4 * (parentRouteChart.tierNum.toNat - 1)))
      rootPortNum := parentRouteChart.rootPortNum
      tierNum := parentRouteChart.tierNum + 1 }

/-! ## Places -/

/-- The port of the root hub, and the turns at the hubs.  The root hub itself is at `[]`. -/
def IsPlace : List Nat → Prop
  | [] => True
  | port :: turns => port < 255 ∧ (∀ turn ∈ turns, turn < 16) ∧ turns.length ≤ 5

/-- The place of the device at a port. -/
def childPlace (l : List Nat) (port : Nat) : List Nat :=
  l ++ [if l = [] then port else hubTurn port]

/-- The route of a place. -/
def routeOf : List Nat → UsbDevRoute
  | [] => {}
  | port :: turns =>
      { routeString := BitVec.ofNat 20 (Nat.ofDigits 16 turns)
        rootPortNum := BitVec.ofNat 8 (port + 1)
        tierNum := BitVec.ofNat 4 (turns.length + 1) }

section Places

variable {l m : List Nat} {port : Nat}

theorem hubTurn_lt (port : Nat) : hubTurn port < 16 := by
  unfold hubTurn
  split_ifs <;> omega

/-- The bits that the turns of a place take. -/
theorem ofDigits_turns_lt {turns : List Nat} (h : ∀ turn ∈ turns, turn < 16)
    (hlen : turns.length ≤ 5) : Nat.ofDigits 16 turns < 2 ^ 20 := by
  have hlt : Nat.ofDigits 16 turns < 16 ^ turns.length :=
    Nat.ofDigits_lt_base_pow_length (by decide) h
  have hle : 16 ^ turns.length ≤ 16 ^ 5 := Nat.pow_le_pow_right (by decide) hlen
  omega

theorem tierNum_routeOf (h : IsPlace l) : (routeOf l).tierNum.toNat = l.length := by
  cases l with
  | nil => rfl
  | cons port turns =>
      obtain ⟨_, _, hlen⟩ := h
      show (BitVec.ofNat 4 (turns.length + 1)).toNat = _
      rw [BitVec.toNat_ofNat, List.length_cons]
      exact Nat.mod_eq_of_lt (by omega)

/-- Only the root hub has no route. -/
theorem routeOf_eq_zero_iff (h : IsPlace l) : routeOf l = {} ↔ l = [] := by
  constructor
  · intro hzero
    have htier := tierNum_routeOf h
    rw [hzero] at htier
    exact List.length_eq_zero_iff.mp htier.symm
  · rintro rfl
    rfl

/-- The route tells the place. -/
theorem routeOf_inj (hl : IsPlace l) (hm : IsPlace m) (h : routeOf l = routeOf m) : l = m := by
  have hlength : l.length = m.length := by
    rw [← tierNum_routeOf hl, h, tierNum_routeOf hm]
  cases l with
  | nil => exact (List.length_eq_zero_iff.mp hlength.symm).symm
  | cons port turns =>
      cases m with
      | nil => cases hlength
      | cons port' turns' =>
          obtain ⟨hport, hturns, hlen⟩ := hl
          obtain ⟨hport', hturns', hlen'⟩ := hm
          rw [List.length_cons, List.length_cons, Nat.succ_inj] at hlength
          have hroot : port = port' := by
            have hbits := congrArg (fun r => r.rootPortNum.toNat) h
            simp only [routeOf, BitVec.toNat_ofNat] at hbits
            omega
          have hstring : turns = turns' := by
            have hbits := congrArg (fun r => r.routeString.toNat) h
            simp only [routeOf, BitVec.toNat_ofNat] at hbits
            rw [Nat.mod_eq_of_lt (ofDigits_turns_lt hturns hlen),
              Nat.mod_eq_of_lt (ofDigits_turns_lt hturns' hlen')] at hbits
            exact Nat.ofDigits_inj_of_len_eq (by decide) hlength hturns hturns' hbits
          rw [hroot, hstring]

/-- A hub that is at most five hubs deep has its devices at places. -/
theorem isPlace_child (hl : IsPlace l) (hdepth : l.length ≤ 5) (hport : l = [] → port < 255) :
    IsPlace (childPlace l port) := by
  cases l with
  | nil => exact ⟨hport rfl, List.forall_mem_nil _, Nat.zero_le _⟩
  | cons root turns =>
      obtain ⟨hroot, hturns, _⟩ := hl
      show IsPlace (root :: (turns ++ [hubTurn port]))
      refine ⟨hroot, ?_, ?_⟩
      · intro turn hmem
        rcases List.mem_append.mp hmem with hold | hnew
        · exact hturns turn hold
        · rw [List.mem_singleton.mp hnew]
          exact hubTurn_lt port
      · rw [List.length_append]
        exact hdepth

/-- The function makes the route of the place. -/
theorem routeChart_routeOf (hl : IsPlace l) (hdepth : l.length ≤ 5) :
    routeChart (routeOf l) port = routeOf (childPlace l port) := by
  unfold routeChart
  cases l with
  | nil => rfl
  | cons root turns =>
      have htier := tierNum_routeOf hl
      have hnonzero : routeOf (root :: turns) ≠ {} := by
        rw [Ne, routeOf_eq_zero_iff hl]
        exact List.cons_ne_nil _ _
      obtain ⟨_, hturns, _⟩ := hl
      have hsmall : Nat.ofDigits 16 turns < 2 ^ (4 * turns.length) := by
        have hlt := Nat.ofDigits_lt_base_pow_length (b := 16) (by decide) hturns
        rwa [show (16 : Nat) = 2 ^ 4 by rfl, ← Nat.pow_mul] at hlt
      -- The new turn takes the bits above those of the hub.
      have hstring : (routeOf (root :: turns)).routeString |||
          BitVec.ofNat 20 (hubTurn port <<< (4 * turns.length)) =
            BitVec.ofNat 20 (Nat.ofDigits 16 (turns ++ [hubTurn port])) := by
        show BitVec.ofNat 20 (Nat.ofDigits 16 turns) ||| _ = _
        rw [← BitVec.ofNat_or, Nat.or_comm, Nat.shiftLeft_eq, Nat.mul_comm,
          ← Nat.two_pow_add_eq_or_of_lt hsmall, Nat.ofDigits_append, Nat.ofDigits_singleton,
          Nat.add_comm, Nat.pow_mul]
      have hnext : BitVec.ofNat 4 (turns.length + 1) + 1 =
          BitVec.ofNat 4 ((turns ++ [hubTurn port]).length + 1) := by
        rw [List.length_append, List.length_singleton, BitVec.ofNat_add (turns.length + 1)]
        rfl
      rw [if_neg hnonzero, htier, List.length_cons, Nat.add_sub_cancel, hstring]
      show UsbDevRoute.mk _ _ (BitVec.ofNat 4 (turns.length + 1) + 1) =
        routeOf (root :: (turns ++ [hubTurn port]))
      rw [hnext]
      rfl

end Places

/-! ## Chains of ports -/

/-- The route of the device that the ports lead to. -/
def chainRoute (ports : List Nat) : UsbDevRoute := ports.foldl routeChart {}

/-- A port of the root hub, and ports of at most five hubs. -/
def IsChain (ports : List Nat) : Prop := (∀ port ∈ ports.head?, port < 255) ∧ ports.length ≤ 6

/-- The place that ports lead to. -/
def chainPlace : List Nat → List Nat
  | [] => []
  | port :: ports => port :: ports.map hubTurn

theorem chainPlace_append (ports : List Nat) (port : Nat) :
    chainPlace (ports ++ [port]) = childPlace (chainPlace ports) port := by
  cases ports with
  | nil => rfl
  | cons root ports => simp [chainPlace, childPlace]

theorem length_chainPlace (ports : List Nat) : (chainPlace ports).length = ports.length := by
  cases ports <;> simp [chainPlace]

theorem isPlace_chain {ports : List Nat} (h : IsChain ports) : IsPlace (chainPlace ports) := by
  cases ports with
  | nil => trivial
  | cons root ports =>
      obtain ⟨hroot, hlen⟩ := h
      refine ⟨hroot root rfl, ?_, ?_⟩
      · intro turn hmem
        obtain ⟨port, _, rfl⟩ := List.mem_map.mp hmem
        exact hubTurn_lt port
      · rw [List.length_map]
        exact Nat.le_of_succ_le_succ hlen

theorem chainRoute_eq {ports : List Nat} (h : IsChain ports) :
    chainRoute ports = routeOf (chainPlace ports) := by
  induction ports using List.reverseRecOn with
  | nil => rfl
  | append_singleton ports port ih =>
      obtain ⟨hroot, hlen⟩ := h
      rw [List.length_append, List.length_singleton] at hlen
      have hshort : IsChain ports := by
        refine ⟨?_, by omega⟩
        cases ports with
        | nil => exact fun _ h => by cases h
        | cons root ports => exact hroot
      have hplace := isPlace_chain hshort
      have hdepth : (chainPlace ports).length ≤ 5 := by
        rw [length_chainPlace]
        omega
      unfold chainRoute at ih ⊢
      rw [List.foldl_append, ih hshort, chainPlace_append]
      exact routeChart_routeOf hplace hdepth

/-- Two ports of one hub that the route tells not apart. -/
def SameTurn (port port' : Nat) : Prop := port = port' ∨ 14 ≤ port ∧ 14 ≤ port'

theorem hubTurn_eq_iff {port port' : Nat} : hubTurn port = hubTurn port' ↔ SameTurn port port' := by
  unfold hubTurn SameTurn
  split_ifs <;> omega

theorem map_hubTurn_eq_iff {ports ports' : List Nat} :
    ports.map hubTurn = ports'.map hubTurn ↔ List.Forall₂ SameTurn ports ports' := by
  induction ports generalizing ports' with
  | nil => cases ports' <;> simp
  | cons port ports ih =>
      cases ports' with
      | nil => simp
      | cons port' ports' =>
          rw [List.map_cons, List.map_cons, List.cons_eq_cons, List.forall₂_cons, hubTurn_eq_iff,
            ih]

/-- Two devices have one route exactly if they are equally deep, behind one port of the root
hub, and at every hub on the way behind one port, or both behind ports from `14` on. -/
theorem chainRoute_eq_iff {root root' : Nat} {ports ports' : List Nat}
    (h : IsChain (root :: ports)) (h' : IsChain (root' :: ports')) :
    chainRoute (root :: ports) = chainRoute (root' :: ports') ↔
      root = root' ∧ List.Forall₂ SameTurn ports ports' := by
  rw [chainRoute_eq h, chainRoute_eq h', ← map_hubTurn_eq_iff, ← List.cons_eq_cons]
  constructor
  · exact routeOf_inj (isPlace_chain h) (isPlace_chain h')
  · intro hsame
    show routeOf (root :: ports.map hubTurn) = routeOf (root' :: ports'.map hubTurn)
    rw [hsame]

/-- The last two ports of a hub with fifteen. -/
theorem chainRoute_eq_iff_last :
    chainRoute [3, 14] = chainRoute [3, 15] ↔
      3 = 3 ∧ List.Forall₂ SameTurn [14] [15] :=
  chainRoute_eq_iff ⟨fun _ h => by cases h; decide, by decide⟩
    ⟨fun _ h => by cases h; decide, by decide⟩

end XhciDxe
end EfiApps
