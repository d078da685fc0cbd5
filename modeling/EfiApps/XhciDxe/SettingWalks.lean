import EfiApps.XhciDxe.DescriptorWalk

/-!
# Walks over the settings of interfaces

A configuration has the settings of its interfaces one after another.  Each has the endpoints
that its own descriptor says, and any other descriptors among them.  The walks come to exactly
the endpoints of the settings that they are for.
-/

namespace EfiApps
namespace XhciDxe

open PciMisc (EfiStatus)

/-! ## One endpoint after the other -/

/-- The body for one endpoint after the other, until it ends the loop. -/
def runEndpoints {σ : Type} (body : UsbEndpointDescriptor → σ → DescriptorWalk (Bool × σ)) :
    List UsbEndpointDescriptor → σ → DescriptorWalk σ
  | [], s => .ok s
  | e :: es, s => do
      let (goOn, s) ← body e s
      if goOn then runEndpoints body es s else return s

section Endpoints

variable {ds : List Descriptor} {numEp : Nat}

/-- If there are enough endpoints, the loop comes to the first ones. -/
theorem visitEndpoints_eq {σ : Type}
    (body : UsbEndpointDescriptor → σ → DescriptorWalk (Bool × σ))
    (henough : numEp ≤ (ds.filter Descriptor.isEndpoint).length) (s : σ) :
    visitEndpoints body numEp ds s =
      runEndpoints body
        (((ds.filter Descriptor.isEndpoint).take numEp).filterMap Descriptor.endpoint) s := by
  induction numEp generalizing ds s with
  | zero => rfl
  | succ numEp ih =>
      have hfilter := filter_dropWhile_not Descriptor.isEndpoint ds
      rw [visitEndpoints]
      cases hfound : ds.dropWhile fun d => !d.isEndpoint with
      | nil =>
          rw [hfound] at hfilter
          rw [← hfilter] at henough
          exact absurd henough (Nat.not_succ_le_zero numEp)
      | cons d rest =>
          rw [hfound, List.filter_cons_of_pos (wanted_of_dropWhile_not hfound)] at hfilter
          rw [← hfilter, List.length_cons] at henough
          have hrest := Nat.le_of_succ_le_succ henough
          rw [← hfilter, List.take_succ_cons]
          dsimp only
          cases hendpoint : d.endpoint with
          | none =>
              rw [List.filterMap_cons_none hendpoint]
              exact ih hrest s
          | some e =>
              rw [List.filterMap_cons_some hendpoint, runEndpoints]
              show (body e s >>= _) = (body e s >>= _)
              congr 1
              funext r
              obtain ⟨goOn, s'⟩ := r
              cases goOn with
              | false => rfl
              | true => exact ih hrest s'

variable (ringPCS : Nat → Bool) (slotId : Nat) (deviceSpeed : UsbSpeed)

/-- All these endpoints are initialized. -/
def initializeEndpoints (es : List UsbEndpointDescriptor) (s : EndpointsState) :
    DescriptorWalk EndpointsState :=
  es.foldlM (fun s e => initializeEndpoint ringPCS slotId deviceSpeed e s) s

theorem runEndpoints_initializeEndpoint (es : List UsbEndpointDescriptor) (s : EndpointsState) :
    runEndpoints
        (fun e s => return (true, ← initializeEndpoint ringPCS slotId deviceSpeed e s)) es s =
      initializeEndpoints ringPCS slotId deviceSpeed es s := by
  induction es generalizing s with
  | nil => rfl
  | cons e es ih =>
      rw [runEndpoints, initializeEndpoints, List.foldlM_cons]
      cases initializeEndpoint ringPCS slotId deviceSpeed e s with
      | error halt => rfl
      | ok t => exact ih t

/-- With a higher `MaxDci` before. -/
def EndpointsState.withMax (m : Nat) (s : EndpointsState) : EndpointsState :=
  { s with maxDci := max m s.maxDci }

theorem initializeEndpoint_withMax (e : UsbEndpointDescriptor) (m : Nat) (s : EndpointsState) :
    initializeEndpoint ringPCS slotId deviceSpeed e (s.withMax m) =
      (initializeEndpoint ringPCS slotId deviceSpeed e s).map (EndpointsState.withMax m) := by
  unfold initializeEndpoint
  by_cases hdci : ¬ e.dci < 32
  · rw [if_pos hdci, if_pos hdci]
    rfl
  · rw [if_neg hdci, if_neg hdci]
    show (endpointContext deviceSpeed e (s.input.ep (e.dci - 1)) >>= _) = _
    cases endpointContext deviceSpeed e (s.input.ep (e.dci - 1)) with
    | error halt => rfl
    | ok c =>
        show Except.ok _ = Except.ok _
        simp only [EndpointsState.withMax, Nat.max_assoc]

/-- Each call of `XhcInitializeEndpointContext` has a `MaxDci` of its own. -/
theorem initializeEndpoints_withMax (es : List UsbEndpointDescriptor) (m : Nat)
    (s : EndpointsState) :
    initializeEndpoints ringPCS slotId deviceSpeed es (s.withMax m) =
      (initializeEndpoints ringPCS slotId deviceSpeed es s).map (EndpointsState.withMax m) := by
  induction es generalizing s with
  | nil => rfl
  | cons e es ih =>
      unfold initializeEndpoints at ih ⊢
      rw [List.foldlM_cons, List.foldlM_cons, initializeEndpoint_withMax]
      cases initializeEndpoint ringPCS slotId deviceSpeed e s with
      | error halt => rfl
      | ok t => exact ih t

theorem initializeEndpoints_append (es es' : List UsbEndpointDescriptor) (s : EndpointsState) :
    initializeEndpoints ringPCS slotId deviceSpeed (es ++ es') s =
      initializeEndpoints ringPCS slotId deviceSpeed es s >>=
        initializeEndpoints ringPCS slotId deviceSpeed es' := List.foldlM_append

end Endpoints

/-! ## Settings -/

/-- A setting of an interface, with as many endpoints as its descriptor says. -/
structure Setting where
  interface : Descriptor
  others : List Descriptor
  isInterface : interface.isInterface = true
  noInterface : ∀ d ∈ others, d.isInterface = false
  complete : (others.filter Descriptor.isEndpoint).length = interface.numEndpoints

namespace Setting

def descriptors (s : Setting) : List Descriptor := s.interface :: s.others

def endpoints (s : Setting) : List UsbEndpointDescriptor :=
  (s.others.filter Descriptor.isEndpoint).filterMap Descriptor.endpoint

/-- The first setting of its interface. -/
def isDefault (s : Setting) : Bool := s.interface.isDefaultSetting

end Setting

/-- Whatever is behind a setting, the loop comes to its endpoints only. -/
theorem visitEndpoints_setting {σ : Type}
    (body : UsbEndpointDescriptor → σ → DescriptorWalk (Bool × σ)) (setting : Setting)
    (rest : List Descriptor) (s : σ) :
    visitEndpoints body setting.interface.numEndpoints (setting.others ++ rest) s =
      runEndpoints body setting.endpoints s := by
  have hfilter := List.filter_append (p := Descriptor.isEndpoint) setting.others rest
  rw [visitEndpoints_eq, hfilter, ← setting.complete, List.take_left]
  · rfl
  · rw [hfilter, List.length_append, setting.complete]
    exact Nat.le_add_right _ _

section Settings

variable (ringPCS : Nat → Bool) (slotId : Nat) (deviceSpeed : UsbSpeed)

theorem visitSetting_eq (setting : Setting) (rest : List Descriptor) (input : InputContext)
    (x : XhcSlots) :
    visitSetting ringPCS slotId deviceSpeed setting.interface (setting.others ++ rest) input x =
      initializeEndpoints ringPCS slotId deviceSpeed setting.endpoints
        { input := input, x := x } := by
  unfold visitSetting
  rw [visitEndpoints_setting, runEndpoints_initializeEndpoint]

/-- Descriptors that no interface starts with are passed over. -/
theorem visitInterfaces_skip (numInterfaces : Nat) {ds : List Descriptor}
    (h : ∀ d ∈ ds, d.isDefaultSetting = false) (rest : List Descriptor) (s : EndpointsState) :
    visitInterfaces ringPCS slotId deviceSpeed numInterfaces (ds ++ rest) s =
      visitInterfaces ringPCS slotId deviceSpeed numInterfaces rest s := by
  cases numInterfaces with
  | zero => rfl
  | succ numInterfaces =>
      have hskip : ((ds ++ rest).dropWhile fun d => !d.isDefaultSetting) =
          rest.dropWhile fun d => !d.isDefaultSetting := by
        apply List.dropWhile_append_of_pos
        intro d hd
        rw [h d hd]
        rfl
      rw [visitInterfaces, visitInterfaces, hskip]

theorem isDefaultSetting_of_noInterface {ds : List Descriptor}
    (h : ∀ d ∈ ds, d.isInterface = false) (d : Descriptor) (hd : d ∈ ds) :
    d.isDefaultSetting = false := by
  unfold Descriptor.isDefaultSetting
  rw [h d hd]
  rfl

/-- The walk comes to the endpoints of the first setting of each interface. -/
theorem visitInterfaces_eq {numInterfaces : Nat} {settings : List Setting}
    (hnumber : (settings.filter Setting.isDefault).length = numInterfaces) (s : EndpointsState) :
    visitInterfaces ringPCS slotId deviceSpeed numInterfaces
        (settings.flatMap Setting.descriptors) s =
      initializeEndpoints ringPCS slotId deviceSpeed
        ((settings.filter Setting.isDefault).flatMap Setting.endpoints) s := by
  induction settings generalizing numInterfaces s with
  | nil =>
      subst hnumber
      rfl
  | cons setting settings ih =>
      rw [List.flatMap_cons, Setting.descriptors]
      cases hdefault : setting.isDefault with
      | false =>
          rw [List.filter_cons_of_neg (by simp [hdefault])] at hnumber ⊢
          rw [visitInterfaces_skip]
          · exact ih hnumber s
          · intro d hd
            rcases List.mem_cons.mp hd with rfl | hd
            · exact hdefault
            · exact isDefaultSetting_of_noInterface setting.noInterface d hd
      | true =>
          rw [List.filter_cons_of_pos hdefault] at hnumber ⊢
          rw [List.length_cons] at hnumber
          subst hnumber
          have hstop : ((setting.interface :: setting.others ++
              settings.flatMap Setting.descriptors).dropWhile fun d => !d.isDefaultSetting) =
                setting.interface :: (setting.others ++
                  settings.flatMap Setting.descriptors) := by
            rw [List.cons_append, List.dropWhile_cons_of_neg]
            rw [show setting.interface.isDefaultSetting = true from hdefault]
            exact Bool.false_ne_true
          -- `MaxDci` starts at zero again for each setting, and the greater one is kept.
          have hmax : initializeEndpoints ringPCS slotId deviceSpeed setting.endpoints s =
              (initializeEndpoints ringPCS slotId deviceSpeed setting.endpoints
                { input := s.input, x := s.x }).map (EndpointsState.withMax s.maxDci) := by
            rw [← initializeEndpoints_withMax]
            unfold EndpointsState.withMax
            rw [Nat.max_zero]
          rw [visitInterfaces, hstop, List.flatMap_cons, initializeEndpoints_append, hmax]
          dsimp only
          rw [visitSetting_eq]
          cases initializeEndpoints ringPCS slotId deviceSpeed setting.endpoints
              { input := s.input, x := s.x } with
          | error halt => rfl
          | ok t =>
              show visitInterfaces ringPCS slotId deviceSpeed _ (setting.others ++ _)
                (t.withMax s.maxDci) = _
              rw [visitInterfaces_skip _ _ _ _
                (isDefaultSetting_of_noInterface setting.noInterface)]
              exact ih rfl _

end Settings

end XhciDxe
end EfiApps
