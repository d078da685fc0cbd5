import EfiApps.Lib.Outcomes
import EfiApps.XhciDxe.EndpointSetup
import EfiApps.XhciDxe.SlotMemory

/-!
# What belongs to a slot, over requests

Whatever bytes a device has sent for a configuration, the walks over them keep what belongs to
the slots apart and free nothing that is not allocated.  They may leave the bytes, go on for
ever or fail an assertion.
-/

namespace EfiApps
namespace XhciDxe

open PciMisc (EfiStatus)

/-! ## Commands and rings -/

section Rings

variable {controller : Controller} {t : PlaceTree Nat Nat} {x : XhcSlots} {i : Nat} {l : List Nat}

theorem sameDevices_busDevAddr (x : XhcSlots) (i : Nat) (value : BitVec 8) :
    SameDevices x (x.modify i fun c => { c with busDevAddr := value }) :=
  sameDevices_modify x i fun _ => rfl

theorem sameDevices_activeConfiguration (x : XhcSlots) (i : Nat) (value : BitVec 8) :
    SameDevices x (x.modify i fun c => { c with activeConfiguration := value }) :=
  sameDevices_modify x i fun _ => rfl

/-- The loop of the request clears addresses. -/
theorem sameDevices_clear (value : BitVec 8) (is : List Nat) (x : XhcSlots) :
    SameDevices x (is.foldl (fun x i =>
      if ¬ (x.usbDevContext i).enabled ∧ (x.usbDevContext i).slotId = 0 ∧
          (x.usbDevContext i).busDevAddr = value then
        x.modify i fun c => { c with busDevAddr := 0 }
      else x) x) := by
  induction is generalizing x with
  | nil => exact ⟨fun _ => rfl, rfl, rfl, rfl, rfl⟩
  | cons i is ih =>
      rw [List.foldl_cons]
      split_ifs
      · exact (sameDevices_busDevAddr x i 0).trans (ih _)
      · exact ih x

theorem setAddress_inv (hinv : SlotsInv t x) (slotId : Nat) (value : BitVec 8) :
    SlotsInv t (x.setAddress slotId value).2 := by
  have hcleared := hinv.same (sameDevices_clear value slotIndices x)
  unfold XhcSlots.setAddress
  generalize slotIndices = is at hcleared ⊢
  dsimp only
  split_ifs
  · exact hcleared
  · exact hcleared.same (sameDevices_busDevAddr _ slotId value)

/-- A command that does not enable or disable a slot. -/
theorem record_inv (hinv : SlotsInv t x) {command : SlotCommand} {result : CmdResult}
    (hcommand : heldAfter (heldSlots x.commands) (command, result) = heldSlots x.commands) :
    SlotsInv t { x with commands := x.commands ++ [(command, result)] } := by
  apply hinv.record
  intro j m hm
  rw [heldSlots_append, hcommand]
  exact (hinv.tree.entry hm).held

theorem setConfigRings_inv (hinv : SlotsInv t x) (hplace : t.place i = some l) {dcis : List Nat}
    (hdcis : ∀ dci ∈ dcis, dci ≤ 31) : SlotsInv t (x.setConfigRings controller i dcis).2 :=
  record_inv (createEndpointRings_inv hinv hplace hdcis) rfl

theorem stopEndpoints_inv (controller : Controller) (hinv : SlotsInv t x)
    (hplace : t.place i = some l) (dcis : List Nat) :
    ∃ status x', x.stopEndpoints controller i dcis = some (status, x') ∧ SlotsInv t x' := by
  induction dcis generalizing x with
  | nil => exact ⟨_, x, rfl, hinv⟩
  | cons dci dcis ih =>
      obtain ⟨result, hresult⟩ :
          ∃ result, result = controller.answer x.commands (.stopEndpoint i dci) := ⟨_, rfl⟩
      have hrecord : SlotsInv t { x with
          commands := x.commands ++ [(.stopEndpoint i dci, result)] } := record_inv hinv rfl
      rw [XhcSlots.stopEndpoints]
      unfold XhcSlots.cmdTransfer
      simp only [← hresult]
      by_cases hstatus : result.status.isError = true
      · rw [if_pos hstatus]
        exact ⟨_, _, rfl, hrecord⟩
      · rw [if_neg hstatus]
        obtain ⟨y, hfree, hnext, _⟩ := freeEndpointRing_inv hrecord hplace dci
        rw [hfree]
        exact ih hnext

theorem setInterfaceRings_inv (controller : Controller) (hinv : SlotsInv t x)
    (hplace : t.place i = some l) (active : List Nat) {dcis : List Nat}
    (hdcis : ∀ dci ∈ dcis, dci ≤ 31) :
    ∃ status x', x.setInterfaceRings controller i active dcis = some (status, x') ∧
      SlotsInv t x' := by
  obtain ⟨status, y, hstop, hstopped⟩ :=
    stopEndpoints_inv controller hinv hplace active
  unfold XhcSlots.setInterfaceRings
  rw [hstop]
  dsimp only
  split_ifs
  · exact ⟨_, y, rfl, hstopped⟩
  · exact ⟨_, _, rfl, setConfigRings_inv hstopped hplace hdcis⟩

end Rings

/-! ## Walks -/

/-- The walk ends as `P` says or halts, but it frees nothing that is not allocated. -/
abbrev Safe {α : Type} (P : α → Prop) (w : DescriptorWalk α) : Prop :=
  Outcome P (fun halt => halt ≠ .invalidFree) w

section Reads

variable (conf : List (BitVec 8)) (p fuel : Nat)

theorem safe_byteAt : Safe (fun _ => True) (byteAt conf p) := by
  unfold byteAt
  split
  · exact trivial
  · exact nofun

theorem safe_nextDescriptor : Safe (fun _ => True) (nextDescriptor conf p) :=
  (safe_byteAt conf p).bind fun _ _ => trivial

theorem safe_endpointAt : Safe (fun _ => True) (endpointAt conf p) :=
  (safe_byteAt conf _).bind fun _ _ => (safe_byteAt conf _).bind fun _ _ =>
    (safe_byteAt conf _).bind fun _ _ => (safe_byteAt conf _).bind fun _ _ =>
      (safe_byteAt conf _).bind fun _ _ => trivial

theorem safe_isDefaultSettingAt : Safe (fun _ => True) (isDefaultSettingAt conf p) := by
  refine (safe_byteAt conf _).bind fun b _ => ?_
  split_ifs
  · exact trivial
  · exact (safe_byteAt conf _).bind fun _ _ => trivial

theorem safe_endpointContext (deviceSpeed : UsbSpeed) (e : UsbEndpointDescriptor)
    (c : EndpointContext) : Safe (fun _ => True) (endpointContext deviceSpeed e c) := by
  rcases endpointContext_cases deviceSpeed e c with ⟨_, c', hcontext⟩ | ⟨_, hcontext⟩
  · rw [hcontext]
    exact trivial
  · rw [hcontext]
    exact nofun

end Reads

section Walks

variable {controller : Controller} {t : PlaceTree Nat Nat} {x : XhcSlots} {i : Nat} {l : List Nat}
  {conf : List (BitVec 8)} {fuel : Nat} {ringPCS : Nat → Bool} {deviceSpeed : UsbSpeed}

/-- The loop over endpoints keeps what its body keeps. -/
theorem safe_forEndpoints {σ : Type} {P : σ → Prop}
    {body : UsbEndpointDescriptor → σ → DescriptorWalk (Bool × σ)}
    (hbody : ∀ e s, P s → Safe (fun r => P r.2) (body e s)) (numEp p : Nat) {s : σ} (hs : P s) :
    Safe P (forEndpoints conf fuel body numEp p s) := by
  induction numEp generalizing p s with
  | zero => exact hs
  | succ numEp ih =>
      rw [forEndpoints]
      have hstop : ∀ p, Safe (fun _ => True)
          (do return (← byteAt conf (p + 1)) == endpointType) := fun p =>
        (safe_byteAt conf _).bind fun _ _ => trivial
      refine (outcome_skipUntil (by decide) hstop (safe_nextDescriptor conf) fuel p).bind
        fun q _ => (safe_byteAt conf q).bind fun length _ => ?_
      split_ifs
      · exact ih _ hs
      · refine (safe_endpointAt conf q).bind fun e _ => (hbody e s hs).bind fun r hr => ?_
        obtain ⟨goOn, s'⟩ := r
        cases goOn with
        | false => exact hr
        | true => exact ih _ hr

/-- The slots of a walk are those of a tree. -/
abbrev WalkInv (t : PlaceTree Nat Nat) (s : EndpointsState) : Prop := SlotsInv t s.x

theorem safe_initializeEndpoint (hplace : t.place i = some l) (e : UsbEndpointDescriptor)
    {s : EndpointsState} (hs : WalkInv t s) :
    Safe (WalkInv t) (initializeEndpoint ringPCS i deviceSpeed e s) := by
  unfold initializeEndpoint
  rw [if_neg (by simpa using e.dci_lt)]
  refine (safe_endpointContext deviceSpeed e _).bind fun c _ => ?_
  show SlotsInv t (if e.hasRing then _ else _)
  split_ifs
  · exact createEndpointRing_inv hs hplace (Nat.le_of_lt_succ e.dci_lt)
  · exact hs

theorem safe_xhcInitializeEndpointContext (hplace : t.place i = some l) (hinv : SlotsInv t x)
    (ifDesc : Nat) (input : InputContext) :
    Safe (WalkInv t)
      (xhcInitializeEndpointContext conf fuel ringPCS i deviceSpeed ifDesc input x) := by
  unfold xhcInitializeEndpointContext
  refine (safe_byteAt conf _).bind fun numEndpoints _ => ?_
  apply safe_forEndpoints
  · intro e s hs
    exact (safe_initializeEndpoint hplace e hs).bind fun _ ht => ht
  · exact hinv

theorem safe_forInterfaces (hplace : t.place i = some l) (numInterfaces p : Nat)
    {s : EndpointsState} (hs : WalkInv t s) :
    Safe (WalkInv t) (forInterfaces conf fuel ringPCS i deviceSpeed numInterfaces p s) := by
  induction numInterfaces generalizing p s with
  | zero => exact hs
  | succ numInterfaces ih =>
      rw [forInterfaces]
      refine (outcome_skipUntil (by decide) (safe_isDefaultSettingAt conf) (safe_nextDescriptor conf)
        fuel p).bind fun q _ => (safe_byteAt conf q).bind fun length _ => ?_
      split_ifs
      · exact ih _ hs
      · exact (safe_xhcInitializeEndpointContext hplace hs q s.input).bind fun u hu => ih _ hu

theorem configureEndpoints_inv {s : EndpointsState} (hs : WalkInv t s) :
    SlotsInv t (configureEndpoints i controller s).2.2 := record_inv hs rfl

theorem safe_xhcSetConfigCmd (controller : Controller) (hinv : SlotsInv t x)
    (hplace : t.place i = some l) :
    Safe (fun r => SlotsInv t r.2.2)
      (xhcSetConfigCmd conf fuel ringPCS i deviceSpeed controller x) := by
  unfold xhcSetConfigCmd
  refine (safe_byteAt conf 4).bind fun numInterfaces _ =>
    (safe_forInterfaces hplace _ 9 hinv).bind fun s hs => ?_
  have hconfigured : SlotsInv t (configureEndpoints i controller s).2.2 :=
    configureEndpoints_inv hs
  dsimp only
  split_ifs
  · exact hconfigured
  · refine (safe_byteAt conf 5).bind fun value _ => ?_
    exact hconfigured.same (sameDevices_activeConfiguration _ i value)

/-! ### Another setting -/

theorem safe_activeSettingAt (x : XhcSlots) (i : Nat) (interfaceNumber : BitVec 8) :
    Safe (fun _ => True) (activeSettingAt i x interfaceNumber) := by
  unfold activeSettingAt
  split
  · exact nofun
  · exact safe_byteAt _ _

theorem safe_setActiveSetting (hinv : SlotsInv t x) (i : Nat) (interfaceNumber value : BitVec 8) :
    Safe (SlotsInv t) (setActiveSetting i interfaceNumber value x) := by
  unfold setActiveSetting
  split
  · exact nofun
  · split_ifs
    · exact hinv.same (sameDevices_contents _ _)
    · exact nofun

variable {index value : BitVec 8}

theorem safe_checkSetting (x : XhcSlots) (p : Nat) (found : FoundSettings) :
    Safe (fun _ => True) (checkSetting conf i index value x p found) := by
  refine (safe_byteAt conf _).bind fun descriptorType _ => ?_
  split_ifs
  · exact trivial
  refine (safe_byteAt conf p).bind fun length _ => ?_
  split_ifs
  · exact trivial
  refine (safe_byteAt conf _).bind fun interfaceNumber _ => ?_
  split_ifs
  · exact trivial
  refine (safe_byteAt conf _).bind fun setting _ =>
    (safe_activeSettingAt x i interfaceNumber).bind fun active _ => ?_
  split_ifs <;> exact trivial

theorem safe_findSettings (x : XhcSlots) (totalLength fuel p : Nat) (found : FoundSettings) :
    Safe (fun _ => True) (findSettings conf i index value x totalLength fuel p found) := by
  induction fuel generalizing p found with
  | zero => exact nofun
  | succ fuel ih =>
      rw [findSettings]
      split_ifs
      · exact (safe_checkSetting x p found).bind fun found' _ =>
          (safe_nextDescriptor conf p).bind fun q _ => ih q found'
      · exact trivial

/-- The ring that is freed belongs to the slot. -/
theorem safe_dropEndpoint (hplace : t.place i = some l) (e : UsbEndpointDescriptor)
    {s : EfiStatus × EndpointsState} (hs : WalkInv t s.2) :
    Safe (fun r => WalkInv t r.2.2) (dropEndpoint i controller e s) := by
  have hrecord : SlotsInv t (s.2.x.cmdTransfer controller (.stopEndpoint i e.dci)).2 :=
    record_inv hs rfl
  obtain ⟨y, hfree, hnext, _⟩ := freeEndpointRing_inv hrecord hplace e.dci
  unfold dropEndpoint
  dsimp only
  rw [if_neg (by simpa using e.dci_lt), hfree]
  by_cases hstatus :
      (s.2.x.cmdTransfer controller (.stopEndpoint i e.dci)).1.status.isError = true
  · rw [if_pos hstatus]
    exact hrecord
  · rw [if_neg hstatus]
    exact hnext

theorem safe_replaceSetting (controller : Controller) (hinv : SlotsInv t x)
    (hplace : t.place i = some l) (active set : Nat) (input : InputContext) :
    Safe (fun r => SlotsInv t r.2.2)
      (replaceSetting conf fuel ringPCS i deviceSpeed index value controller active set input
        x) := by
  unfold replaceSetting
  refine (safe_byteAt conf _).bind fun numEndpoints _ => ?_
  refine (safe_forEndpoints (P := fun s => WalkInv t s.2)
    (fun e s hs => safe_dropEndpoint hplace e hs) _ _ hinv).bind fun s hs => ?_
  dsimp only
  split_ifs
  · exact hs
  refine (safe_xhcInitializeEndpointContext hplace hs set _).bind fun u hu => ?_
  have hconfigured : SlotsInv t (configureEndpoints i controller
      { u with maxDci := max s.2.maxDci u.maxDci }).2.2 := configureEndpoints_inv hu
  split_ifs
  · exact hconfigured
  · exact (safe_setActiveSetting hconfigured i index value).bind fun _ hset => hset

theorem safe_xhcSetInterface (controller : Controller) (hinv : SlotsInv t x)
    (hplace : t.place i = some l) :
    Safe (fun r => SlotsInv t r.2.2)
      (xhcSetInterface conf fuel ringPCS i deviceSpeed index value controller x) := by
  unfold xhcSetInterface
  refine (safe_byteAt conf 2).bind fun low _ => (safe_byteAt conf 3).bind fun high _ =>
    (safe_findSettings x _ fuel 9 {}).bind fun found _ => ?_
  split
  · exact safe_replaceSetting controller hinv hplace _ _ _
  · exact hinv

/-! ### The requests -/

theorem safe_getConfigDescriptor (hinv : SlotsInv t x) (hplace : t.place i = some l) (index : Nat)
    (data : List (BitVec 8)) : Safe (SlotsInv t) (getConfigDescriptor i index data x) := by
  unfold getConfigDescriptor
  refine (safe_byteAt data 2).bind fun low _ => (safe_byteAt data 3).bind fun high _ => ?_
  by_cases hwhole : data.length ≠ (high ++ low).toNat
  · rw [if_pos hwhole]
    exact hinv
  rw [if_neg hwhole]
  by_cases hindex : index < (x.usbDevContext i).confDesc.length
  · rw [if_neg (not_not.mpr hindex)]
    exact (safe_byteAt data 4).bind fun numInterfaces _ =>
      storeConfig_inv hinv hplace index data numInterfaces
  · rw [if_pos hindex]
    exact nofun

theorem safe_findConfig (contents : Nat → List (BitVec 8)) (value : BitVec 8)
    (confDesc : List (Option Nat)) : Safe (fun _ => True) (findConfig contents value confDesc) := by
  induction confDesc with
  | nil => exact trivial
  | cons a confDesc ih =>
      cases a with
      | none => exact nofun
      | some a =>
          rw [findConfig]
          refine (safe_byteAt _ 5).bind fun configurationValue _ => ?_
          split_ifs
          · exact trivial
          · exact ih

theorem safe_setConfiguration (controller : Controller) (hinv : SlotsInv t x)
    (hplace : t.place i = some l) (value : BitVec 8) :
    Safe (SlotsInv t) (setConfiguration ringPCS i deviceSpeed controller value x) := by
  unfold setConfiguration
  refine (safe_findConfig _ value _).bind fun found _ => ?_
  cases found with
  | none => exact hinv
  | some conf => exact (safe_xhcSetConfigCmd controller hinv hplace).bind fun _ hr => hr

theorem safe_activeConfig (x : XhcSlots) (i : Nat) : Safe (fun _ => True) (activeConfig i x) := by
  unfold activeConfig
  dsimp only
  split_ifs
  · exact nofun
  · split
    · exact nofun
    · exact nofun
    · exact trivial

theorem safe_setInterface (controller : Controller) (hinv : SlotsInv t x)
    (hplace : t.place i = some l) (index value : BitVec 8) :
    Safe (SlotsInv t) (setInterface ringPCS i deviceSpeed controller index value x) := by
  unfold setInterface
  refine (safe_activeSettingAt x i index).bind fun active _ => ?_
  split_ifs
  · exact hinv
  · exact (safe_activeConfig x i).bind fun conf _ =>
      (safe_xhcSetInterface controller hinv hplace).bind fun _ hr => hr

end Walks

end XhciDxe
end EfiApps
