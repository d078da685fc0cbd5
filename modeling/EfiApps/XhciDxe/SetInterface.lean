import EfiApps.XhciDxe.SetConfiguration

/-!
# Setting an interface

`XhcSetInterface` looks through the whole configuration for two settings of an interface, the
one that is active and the one that is asked for.  It stops the endpoints of the first and frees
their rings, one after the other, and sets up those of the second.
-/

namespace EfiApps
namespace XhciDxe

open PciMisc (EfiStatus)

/-! ## The two settings -/

section Find

variable (current index value : BitVec 8)

namespace Setting

/-- The setting of the interface that is active now. -/
def isActive (s : Setting) : Bool :=
  s.interface.byte 2 == index && s.interface.byte 3 == current

/-- The setting that is asked for. -/
def isAsked (s : Setting) : Bool :=
  s.interface.byte 2 == index && s.interface.byte 3 != current && s.interface.byte 3 == value

end Setting

/-- The last setting with a property. -/
def lastSetting (f : Setting → Bool) (settings : List Setting) (found : Option Setting) :
    Option Setting :=
  settings.foldl (fun found s => if f s then some s else found) found

theorem lastSetting_eq (f : Setting → Bool) (settings : List Setting) :
    lastSetting f settings none = (settings.filter f).getLast? := by
  have hfound : ∀ found, lastSetting f settings found =
      ((settings.filter f).getLast?).or found := by
    induction settings with
    | nil => exact fun _ => rfl
    | cons s settings ih =>
        intro found
        show lastSetting f settings (if f s then some s else found) = _
        rw [ih]
        cases hs : f s with
        | false => rw [List.filter_cons_of_neg (by simp [hs]), if_neg Bool.false_ne_true]
        | true =>
            rw [List.filter_cons_of_pos hs, if_pos rfl, List.getLast?_cons]
            cases (settings.filter f).getLast? <;> rfl
  rw [hfound none, Option.or_none]

/-- Where a setting has been found. -/
def SettingAt (conf : List (BitVec 8)) : Option Nat → Option Setting → Prop
  | none, none => True
  | some p, some s => ∃ rest, DescriptorsAt conf p (s.interface :: (s.others ++ rest))
  | _, _ => False

variable {current index value} {conf : List (BitVec 8)} {p fuel slotId : Nat} {x : XhcSlots}
  {found : FoundSettings} {ds rest : List Descriptor} {d : Descriptor}
  {active asked : Option Setting}

theorem checkSetting_other (h : DescriptorsAt conf p (d :: rest)) (hother : d.isInterface = false) :
    checkSetting conf slotId index value x p found = .ok found := by
  unfold checkSetting
  rw [byteAt_type h]
  show (if d.byte 1 ≠ interfaceType then pure found else _) = _
  rw [if_pos (by simpa [Descriptor.isInterface] using hother)]
  rfl

/-- A setting is compared with the active one only if it is of the interface. -/
theorem checkSetting_interface (h : DescriptorsAt conf p (d :: rest))
    (hinterface : d.isInterface = true) :
    checkSetting conf slotId index value x p found =
      if d.byte 2 ≠ index then .ok found
      else (activeSettingAt slotId x index).map fun current =>
        if d.byte 3 = current then { found with active := some p }
        else if d.byte 3 = value then { found with set := some p } else found := by
  have hlength := d.length_of_isInterface hinterface
  unfold checkSetting
  rw [byteAt_type h, byteAt_length h, byteAt_descriptor (k := 2) h (by omega),
    byteAt_descriptor (k := 3) h (by omega)]
  show (if d.byte 1 ≠ interfaceType then pure found
    else if (d.byte 0).toNat < 9 then pure found
    else if d.byte 2 ≠ index then pure found
    else activeSettingAt slotId x (d.byte 2) >>= fun current =>
      if d.byte 3 = current then pure { found with active := some p }
      else if d.byte 3 = value then pure { found with set := some p } else pure found) = _
  rw [if_neg (by simpa [Descriptor.isInterface] using hinterface), d.byte_zero,
    if_neg (by omega)]
  by_cases hnumber : d.byte 2 ≠ index
  · rw [if_pos hnumber, if_pos hnumber]
    rfl
  · rw [if_neg hnumber, if_neg hnumber, Classical.not_not.mp hnumber]
    cases activeSettingAt slotId x index with
    | error halt => rfl
    | ok current =>
        show (if d.byte 3 = current then pure _ else _) =
          Except.ok (if d.byte 3 = current then _ else _)
        split_ifs
        · rfl
        · rfl
        · rfl

theorem lt_length_of_descriptorsAt (h : DescriptorsAt conf p (d :: rest)) : p < conf.length := by
  have hread := byteAt_length h
  unfold byteAt at hread
  cases hbyte : conf[p]? with
  | none =>
      rw [hbyte] at hread
      cases hread
  | some b => exact (List.getElem?_eq_some_iff.mp hbyte).1

/-- One descriptor. -/
theorem findSettings_cons (h : DescriptorsAt conf p (d :: rest)) :
    findSettings conf slotId index value x conf.length (fuel + 1) p found =
      checkSetting conf slotId index value x p found >>=
        findSettings conf slotId index value x conf.length fuel
          (p + d.bytes.length) := by
  rw [findSettings, if_pos (lt_length_of_descriptorsAt h)]
  congr 1
  funext found'
  rw [nextDescriptor_eq h]
  rfl

/-- Other descriptors are passed over. -/
theorem findSettings_skip (slotId : Nat) (index value : BitVec 8) (x : XhcSlots)
    (found : FoundSettings) (h : DescriptorsAt conf p (ds ++ rest))
    (hothers : ∀ d ∈ ds, d.isInterface = false) (fuel : Nat) :
    ∃ q, DescriptorsAt conf q rest ∧
      findSettings conf slotId index value x conf.length (fuel + ds.length) p found =
        findSettings conf slotId index value x conf.length fuel q found := by
  induction ds generalizing p with
  | nil => exact ⟨p, h, rfl⟩
  | cons d ds ih =>
      obtain ⟨q, hq, hloop⟩ := ih h.next fun d' hd' => hothers d' (List.mem_cons_of_mem _ hd')
      refine ⟨q, hq, ?_⟩
      rw [List.length_cons, ← Nat.add_assoc, findSettings_cons h,
        checkSetting_other h (hothers d List.mem_cons_self)]
      exact hloop

/-- The loop finds the last setting of each kind. -/
theorem findSettings_settings (hcurrent : activeSettingAt slotId x index = .ok current)
    (settings : List Setting)
    (h : DescriptorsAt conf p (settings.flatMap Setting.descriptors))
    (hactive : SettingAt conf found.active active) (hasked : SettingAt conf found.set asked)
    (hfuel : (settings.flatMap Setting.descriptors).length < fuel) :
    ∃ found', findSettings conf slotId index value x conf.length fuel p found =
        .ok found' ∧
      SettingAt conf found'.active
        (lastSetting (Setting.isActive current index) settings active) ∧
      SettingAt conf found'.set
        (lastSetting (Setting.isAsked current index value) settings asked) := by
  induction settings generalizing p fuel found active asked with
  | nil =>
      obtain ⟨fuel, rfl⟩ := Nat.exists_eq_succ_of_ne_zero (Nat.ne_zero_of_lt hfuel)
      have hend : conf.length ≤ p := by
        have hdrop : conf.drop p = [] := h
        exact List.drop_eq_nil_iff.mp hdrop
      refine ⟨found, ?_, hactive, hasked⟩
      rw [findSettings, if_neg (Nat.not_lt.mpr hend)]
      rfl
  | cons s settings ih =>
      rw [List.flatMap_cons, Setting.descriptors, List.cons_append] at h hfuel
      rw [List.length_cons, List.length_append] at hfuel
      obtain ⟨fuel, rfl⟩ : ∃ n, fuel = n + s.others.length + 1 :=
        ⟨fuel - s.others.length - 1, by omega⟩
      have hhere : SettingAt conf (some p) (some s) := ⟨_, h⟩
      have hstep : ∃ found', checkSetting conf slotId index value x p found =
            .ok found' ∧
          SettingAt conf found'.active
            (if s.isActive current index then some s else active) ∧
          SettingAt conf found'.set
            (if s.isAsked current index value then some s else asked) := by
        rw [checkSetting_interface h s.isInterface, hcurrent]
        unfold Setting.isActive Setting.isAsked
        -- A setting of another interface is passed over; of two tests the first one wins.
        by_cases hnumber : s.interface.byte 2 = index
        · rw [if_neg (not_not.mpr hnumber)]
          refine ⟨_, rfl, ?_⟩
          by_cases halternate : s.interface.byte 3 = current
          · simp [hnumber, halternate, hhere, hasked]
          · by_cases hvalue : s.interface.byte 3 = value
            · rw [hvalue] at halternate
              simp [hnumber, halternate, hvalue, hhere, hactive]
            · simp [hnumber, halternate, hvalue, hactive, hasked]
        · rw [if_pos hnumber]
          refine ⟨found, rfl, ?_⟩
          simp [hnumber, hactive, hasked]
      obtain ⟨found', hcheck, hactive', hasked'⟩ := hstep
      obtain ⟨q, hq, hskip⟩ := findSettings_skip slotId index value x found' h.next
        s.noInterface fuel
      have hrest : (settings.flatMap Setting.descriptors).length < fuel := by omega
      obtain ⟨found'', hloop, hfound⟩ := ih hq hactive' hasked' hrest
      refine ⟨found'', ?_, hfound⟩
      rw [findSettings_cons h, hcheck]
      exact hskip.trans hloop

/-- Without an entry for the interface, the loop halts at the first setting of it. -/
theorem findSettings_outside {halt : WalkHalt}
    (hcurrent : activeSettingAt slotId x index = .error halt) (settings : List Setting)
    (h : DescriptorsAt conf p (settings.flatMap Setting.descriptors))
    (hsome : ∃ s ∈ settings, s.interface.byte 2 = index)
    (hfuel : (settings.flatMap Setting.descriptors).length < fuel) :
    findSettings conf slotId index value x conf.length fuel p found = .error halt := by
  induction settings generalizing p fuel with
  | nil =>
      obtain ⟨_, hmem, _⟩ := hsome
      cases hmem
  | cons s settings ih =>
      rw [List.flatMap_cons, Setting.descriptors, List.cons_append] at h hfuel
      rw [List.length_cons, List.length_append] at hfuel
      obtain ⟨fuel, rfl⟩ : ∃ n, fuel = n + s.others.length + 1 :=
        ⟨fuel - s.others.length - 1, by omega⟩
      rw [findSettings_cons h, checkSetting_interface h s.isInterface, hcurrent]
      by_cases hnumber : s.interface.byte 2 = index
      · rw [if_neg (not_not.mpr hnumber)]
        rfl
      · obtain ⟨q, hq, hskip⟩ := findSettings_skip slotId index value x found h.next
          s.noInterface fuel
        have hrest : ∃ s' ∈ settings, s'.interface.byte 2 = index := by
          obtain ⟨s', hmem, hs'⟩ := hsome
          rcases List.mem_cons.mp hmem with rfl | hmem
          · exact absurd hs' hnumber
          · exact ⟨s', hmem, hs'⟩
        rw [if_pos hnumber]
        exact hskip.trans (ih hq hrest (by omega))

end Find

/-! ## The endpoints of the active setting -/

section Drop

variable {controller : Controller} {slotId : Nat} {es : List UsbEndpointDescriptor}
  {status : EfiStatus} {s : EndpointsState} {x' : XhcSlots}

/-- What the endpoints of the active setting leave in the input context, if all are stopped. -/
structure DropsEndpoints (es : List UsbEndpointDescriptor) (s t : EndpointsState) : Prop where
  maxDci : t.maxDci = es.foldl (fun m e => max m e.dci) s.maxDci
  flags : ∀ k < 32, t.input.dword1.getLsbD k =
    (s.input.dword1.getLsbD k || es.any fun e => e.dci == k)
  dword2 : t.input.dword2 = s.input.dword2
  slot : t.input.slot = s.input.slot
  ep : t.input.ep = s.input.ep

/-- The loop does to the slot what stopping and freeing endpoint after endpoint does. -/
theorem runEndpoints_drop
    (hstop : s.x.stopEndpoints controller slotId (es.map UsbEndpointDescriptor.dci) =
      some (status, x')) (before : EfiStatus) (hbefore : before.isError = false) :
    ∃ status' t, runEndpoints (dropEndpoint slotId controller) es (before, s) = .ok (status', t) ∧
      t.x = x' ∧ status'.isError = status.isError ∧ (status.isError = true → status' = status) ∧
      (status.isError = false → DropsEndpoints es s t) := by
  induction es generalizing s before with
  | nil =>
      rw [List.map_nil, XhcSlots.stopEndpoints, Option.some.injEq, Prod.mk.injEq] at hstop
      obtain ⟨rfl, rfl⟩ := hstop
      refine ⟨before, s, rfl, rfl, hbefore, ?_, ?_⟩
      · intro h
        cases h
      · intro _
        exact ⟨rfl, fun _ _ => (Bool.or_false _).symm, rfl, rfl, rfl⟩
  | cons e es ih =>
      obtain ⟨result, y, hcommand⟩ :
          ∃ result y, s.x.cmdTransfer controller (.stopEndpoint slotId e.dci) = (result, y) :=
        ⟨_, _, rfl⟩
      rw [List.map_cons, XhcSlots.stopEndpoints, hcommand] at hstop
      dsimp only at hstop
      rw [runEndpoints]
      unfold dropEndpoint
      dsimp only
      rw [if_neg (by simpa using e.dci_lt), hcommand]
      dsimp only
      -- Both end at the first endpoint that cannot be stopped.
      by_cases hstatus : result.status.isError = true
      · rw [if_pos hstatus, Option.some.injEq, Prod.mk.injEq] at hstop
        obtain ⟨rfl, rfl⟩ := hstop
        rw [if_pos hstatus]
        refine ⟨_, _, rfl, rfl, rfl, fun _ => rfl, ?_⟩
        intro hsuccess
        rw [hstatus] at hsuccess
        cases hsuccess
      · rw [if_neg hstatus] at hstop ⊢
        cases hfree : y.freeEndpointRing slotId e.dci with
        | none =>
            rw [hfree] at hstop
            cases hstop
        | some z =>
            rw [hfree] at hstop
            obtain ⟨status', t, hrun, hslots, herror, hsame, hdrops⟩ :=
              ih (s := {
                maxDci := max s.maxDci e.dci
                input := { s.input with dword1 := s.input.dword1 ||| 1#32 <<< e.dci }
                x := z }) hstop result.status (Bool.eq_false_iff.mpr hstatus)
            refine ⟨status', t, hrun, hslots, herror, hsame, ?_⟩
            intro hsuccess
            have hrest := hdrops hsuccess
            exact
              { maxDci := hrest.maxDci
                flags := by
                  intro k hk
                  rw [hrest.flags k hk, List.any_cons, ← Bool.or_assoc, ← getLsbD_flag hk]
                dword2 := hrest.dword2
                slot := hrest.slot
                ep := hrest.ep }

end Drop

/-! ## The function -/

section Function

variable {ringPCS : Nat → Bool} {slotId left fuel : Nat} {deviceSpeed : UsbSpeed}
  {controller : Controller} {current index value : BitVec 8} {x x' : XhcSlots}
  {conf : List (BitVec 8)} {p : Nat} {setting : Setting}

/-- No more descriptors than bytes. -/
theorem length_le_of_descriptorsAt {ds : List Descriptor} (h : DescriptorsAt conf p ds) :
    ds.length ≤ conf.length := by
  have hbytes : ds.length ≤ (ds.flatMap Descriptor.bytes).length := by
    clear h
    induction ds with
    | nil => exact Nat.zero_le _
    | cons d ds ih =>
        have htwo := d.two_le
        rw [List.flatMap_cons, List.length_append, List.length_cons]
        omega
  have hdrop : (conf.drop p).length = (ds.flatMap Descriptor.bytes).length := congrArg _ h
  rw [List.length_drop] at hdrop
  omega

/-- The loop over the endpoints of a setting that has been found. -/
theorem forEndpoints_setting {σ : Type}
    (body : UsbEndpointDescriptor → σ → DescriptorWalk (Bool × σ))
    (h : SettingAt conf (some p) (some setting)) (hfuel : conf.length < fuel) (s : σ) :
    byteAt conf (p + 4) = .ok (setting.interface.byte 4) ∧
      forEndpoints conf fuel body (setting.interface.byte 4).toNat (p + 9) s =
        runEndpoints body setting.endpoints s := by
  obtain ⟨rest, h⟩ := h
  have hlength := setting.interface.length_of_isInterface setting.isInterface
  have hnext := h.next
  rw [hlength] at hnext
  refine ⟨byteAt_descriptor (k := 4) h (by omega), ?_⟩
  rw [forEndpoints_eq body _ hnext ((length_le_of_descriptorsAt hnext).trans_lt hfuel)]
  exact visitEndpoints_setting body setting rest s

theorem xhcInitializeEndpointContext_setting (h : SettingAt conf (some p) (some setting))
    (hfuel : conf.length < fuel) (input : InputContext) :
    xhcInitializeEndpointContext conf fuel ringPCS slotId deviceSpeed p input x =
      initializeEndpoints ringPCS slotId deviceSpeed setting.endpoints
        { input := input, x := x } := by
  obtain ⟨hnumber, hloop⟩ := forEndpoints_setting
    (fun e s => return (true, ← initializeEndpoint ringPCS slotId deviceSpeed e s)) h hfuel
    { input := input, x := x }
  unfold xhcInitializeEndpointContext
  rw [hnumber]
  exact hloop.trans (runEndpoints_initializeEndpoint ringPCS slotId deviceSpeed _ _)

theorem Configuration.totalLength_eq (c : Configuration) :
    (c.header.getD 3 0 ++ c.header.getD 2 0 : BitVec 16).toNat = c.bytes.length := by
  rw [c.totalLength, Configuration.bytes, List.length_append]
  rfl

/-- The loop comes to the settings of the interfaces. -/
theorem Configuration.findSettings_eq (c : Configuration) (slotId : Nat) (index value : BitVec 8)
    (x : XhcSlots) (hfuel : c.descriptors.length < fuel) :
    ∃ q fuel', DescriptorsAt c.bytes q (c.settings.flatMap Setting.descriptors) ∧
      (c.settings.flatMap Setting.descriptors).length < fuel' ∧
      findSettings c.bytes slotId index value x c.bytes.length fuel 9 {} =
        findSettings c.bytes slotId index value x c.bytes.length fuel' q {} := by
  have hnumber : c.descriptors.length =
      c.leading.length + (c.settings.flatMap Setting.descriptors).length := List.length_append
  obtain ⟨fuel, rfl⟩ : ∃ n, fuel = n + c.leading.length := ⟨fuel - c.leading.length, by omega⟩
  obtain ⟨q, hq, hskip⟩ := findSettings_skip slotId index value x {} c.descriptorsAt
    c.noInterface fuel
  exact ⟨q, fuel, hq, by omega, hskip⟩

/-- Both settings are found, if the configuration has them. -/
theorem Configuration.findSettings (c : Configuration)
    (hcurrent : activeSettingAt slotId x index = .ok current) (value : BitVec 8)
    (hfuel : c.descriptors.length < fuel) :
    ∃ found, findSettings c.bytes slotId index value x c.bytes.length fuel 9 {} = .ok found ∧
      SettingAt c.bytes found.active
        (c.settings.filter (Setting.isActive current index)).getLast? ∧
      SettingAt c.bytes found.set
        (c.settings.filter (Setting.isAsked current index value)).getLast? := by
  obtain ⟨q, fuel', hq, hrest, hskip⟩ := c.findSettings_eq slotId index value x hfuel
  rw [hskip, ← lastSetting_eq, ← lastSetting_eq]
  exact findSettings_settings hcurrent c.settings hq trivial trivial hrest

/-- The function first looks for the two settings. -/
theorem xhcSetInterface_eq (c : Configuration) :
    xhcSetInterface c.bytes fuel ringPCS slotId deviceSpeed index value controller x =
      (XhciDxe.findSettings c.bytes slotId index value x c.bytes.length fuel 9 {} >>= fun found =>
        match found with
        | { active := some active, set := some set } =>
            replaceSetting c.bytes fuel ringPCS slotId deviceSpeed index value controller active
              set (clearedInput slotId x) x
        | _ => return (.success, clearedInput slotId x, x)) := by
  unfold xhcSetInterface
  rw [c.byteAt_header (k := 2) (by decide), c.byteAt_header (k := 3) (by decide),
    ← c.totalLength_eq]
  rfl

/-- If there is no such setting, nothing is done. -/
theorem setInterface_missing (c : Configuration) (hfuel : c.bytes.length < fuel)
    (hcurrent : activeSettingAt slotId x index = .ok current)
    (hmissing : (c.settings.filter (Setting.isActive current index)).getLast? = none ∨
      (c.settings.filter (Setting.isAsked current index value)).getLast? = none) :
    xhcSetInterface c.bytes fuel ringPCS slotId deviceSpeed index value controller x =
      .ok (.success, clearedInput slotId x, x) := by
  have hdescriptors := length_le_of_descriptorsAt c.descriptorsAt
  obtain ⟨⟨active, set⟩, hfind, hactive, hasked⟩ := c.findSettings hcurrent value
    (hdescriptors.trans_lt hfuel)
  rw [xhcSetInterface_eq, hfind]
  rcases hmissing with hnone | hnone
  · rw [hnone] at hactive
    cases active with
    | none => rfl
    | some p => exact hactive.elim
  · rw [hnone] at hasked
    cases set with
    | none => cases active <;> rfl
    | some p => exact hasked.elim

/-- If the interface has no entry among the active settings, the first of its settings brings
the function to a halt. -/
theorem setInterface_outside (c : Configuration) (hfuel : c.bytes.length < fuel)
    {halt : WalkHalt} (hcurrent : activeSettingAt slotId x index = .error halt)
    (hsome : ∃ s ∈ c.settings, s.interface.byte 2 = index) :
    xhcSetInterface c.bytes fuel ringPCS slotId deviceSpeed index value controller x =
      .error halt := by
  have hdescriptors := length_le_of_descriptorsAt c.descriptorsAt
  obtain ⟨q, fuel', hq, hrest, hskip⟩ := c.findSettings_eq slotId index value x
    (hdescriptors.trans_lt hfuel)
  rw [xhcSetInterface_eq, hskip, findSettings_outside hcurrent c.settings hq hsome hrest]
  rfl

/-- The input context that puts endpoints in the place of others. -/
structure ReplacesEndpoints (ringPCS : Nat → Bool) (slotId : Nat) (deviceSpeed : UsbSpeed)
    (dropped added : List UsbEndpointDescriptor) (x x' : XhcSlots) (input : InputContext) :
    Prop where
  dropFlags : ∀ k < 32, input.dword1.getLsbD k = dropped.any fun e => e.dci == k
  addFlags : ∀ k < 32, input.dword2.getLsbD k =
    (decide (k = 0) || added.any fun e => e.dci == k)
  slot : input.slot = { (x.usbDevContext slotId).outputSlot with
    contextEntries := max (dropped.foldl (fun m e => max m e.dci) 0)
      (added.foldl (fun m e => max m e.dci) 0) }
  others : ∀ k, (∀ e ∈ added, e.dci - 1 ≠ k) → input.ep k = {}
  contexts : (added.map UsbEndpointDescriptor.dci).Nodup → ∀ e ∈ added,
    ∃ c, endpointContext deviceSpeed e {} = .ok c ∧
      input.ep (e.dci - 1) = withRing ringPCS slotId e x' c

/-- The controller is given the endpoints of one setting to drop and those of another to add. -/
theorem DropsEndpoints.replaces (controller : Controller) {dropped added : List UsbEndpointDescriptor}
    {s u : EndpointsState}
    (h : DropsEndpoints dropped { input := clearedInput slotId x, x := x } s)
    (hinit : Initialized ringPCS slotId deviceSpeed added { input := s.input, x := s.x } u) :
    ReplacesEndpoints ringPCS slotId deviceSpeed dropped added x
      (configureEndpoints slotId controller { u with maxDci := max s.maxDci u.maxDci }).2.2
      (configureEndpoints slotId controller { u with maxDci := max s.maxDci u.maxDci }).2.1 where
  dropFlags k hk := by
    show u.input.dword1.getLsbD k = _
    rw [hinit.dword1, h.flags k hk]
    simp [clearedInput]
  addFlags k hk := by
    show (u.input.dword2 ||| 1).getLsbD k = _
    rw [getLsbD_or_one hk, hinit.flags k hk, h.dword2]
    simp [clearedInput]
  slot := by
    show { u.input.slot with contextEntries := max s.maxDci u.maxDci } = _
    rw [hinit.slot, h.slot, hinit.maxDci, h.maxDci]
    rfl
  others k hk := by
    show u.input.ep k = _
    rw [hinit.others k hk, h.ep]
    rfl
  contexts hdistinct e he := by
    have hcontext := hinit.contexts hdistinct e he
    rw [h.ep] at hcontext
    exact hcontext

/-- The array of the active settings, and what is in it. -/
def alternateSettings (slotId : Nat) (x : XhcSlots) : Option (Nat × List (BitVec 8)) :=
  (x.usbDevContext slotId).activeAlternateSetting.map fun a => (a, x.contents a)

/-- These are the active settings if the command has succeeded. -/
def settingAfter (a : Nat) (settings : List (BitVec 8)) (status : EfiStatus) (x : XhcSlots) :
    XhcSlots :=
  if status.isError then x
  else { x with contents := Function.update x.contents a settings }

theorem sameDevices_settingAfter (a : Nat) (settings : List (BitVec 8)) (status : EfiStatus)
    (x : XhcSlots) : SameDevices x (settingAfter a settings status x) := by
  unfold settingAfter
  split_ifs
  · exact ⟨fun _ => rfl, rfl, rfl, rfl, rfl⟩
  · exact sameDevices_contents _ _

theorem activeSettingAt_eq {a : Nat} {settings : List (BitVec 8)}
    (h : alternateSettings slotId x = some (a, settings)) :
    activeSettingAt slotId x index = byteAt settings index.toNat := by
  obtain ⟨b, hb, hsame⟩ := Option.map_eq_some_iff.mp h
  cases hsame
  unfold activeSettingAt
  rw [hb]

/-- Rings are made and freed without a change to the settings. -/
theorem alternateSettings_createRings (dcis : List Nat) :
    alternateSettings slotId (createRings slotId dcis x) = alternateSettings slotId x := by
  induction dcis generalizing x with
  | nil => rfl
  | cons dci dcis ih =>
      have hone : alternateSettings slotId (x.createEndpointRing slotId dci) =
          alternateSettings slotId x := by
        unfold XhcSlots.createEndpointRing
        split
        · rfl
        · simp [alternateSettings, XhcSlots.modify, XhcSlots.allocate]
      exact ih.trans hone

theorem alternateSettings_stopEndpoints {status : EfiStatus} (dcis : List Nat)
    (hstop : x.stopEndpoints controller slotId dcis = some (status, x')) :
    alternateSettings slotId x' = alternateSettings slotId x := by
  induction dcis generalizing x with
  | nil =>
      rw [XhcSlots.stopEndpoints, Option.some.injEq, Prod.mk.injEq] at hstop
      rw [hstop.2]
  | cons dci dcis ih =>
      rw [XhcSlots.stopEndpoints] at hstop
      dsimp only at hstop
      split_ifs at hstop
      · cases hstop
        rfl
      · cases hfree : (x.cmdTransfer controller (.stopEndpoint slotId dci)).2.freeEndpointRing
            slotId dci with
        | none =>
            rw [hfree] at hstop
            cases hstop
        | some y =>
            rw [hfree] at hstop
            refine (ih hstop).trans ?_
            unfold XhcSlots.freeEndpointRing at hfree
            split at hfree
            · cases hfree
              rfl
            · split at hfree
              · cases hfree
              · cases hfree
                simp [alternateSettings, XhcSlots.modify, XhcSlots.cmdTransfer]

theorem setActiveSetting_eq {a : Nat} {settings : List (BitVec 8)}
    (h : alternateSettings slotId x = some (a, settings)) (hindex : index.toNat < settings.length) :
    setActiveSetting slotId index value x = .ok { x with
      contents := Function.update x.contents a (settings.set index.toNat value) } := by
  obtain ⟨b, hb, hsame⟩ := Option.map_eq_some_iff.mp h
  cases hsame
  unfold setActiveSetting
  rw [hb]
  exact if_pos hindex

/-- The end of the function. -/
theorem replaceSetting_end (s : EndpointsState) {a : Nat} {settings : List (BitVec 8)}
    (halternate : alternateSettings slotId s.x = some (a, settings))
    (hindex : index.toNat < settings.length) :
    (match configureEndpoints slotId controller s with
    | (status, input, x) =>
        if status.isError then pure (status, input, x)
        else do return (status, input, ← setActiveSetting slotId index value x) :
      DescriptorWalk _) =
      .ok ((configureEndpoints slotId controller s).1,
        (configureEndpoints slotId controller s).2.1,
        settingAfter a (settings.set index.toNat value) (configureEndpoints slotId controller s).1
          (configureEndpoints slotId controller s).2.2) := by
  have hsame : alternateSettings slotId (configureEndpoints slotId controller s).2.2 =
      some (a, settings) := halternate
  unfold settingAfter
  dsimp only
  split_ifs
  · rfl
  · rw [setActiveSetting_eq hsame hindex]
    rfl

/-- What becomes of the two settings, wherever they have been found. -/
theorem replaceSetting_spec {t : PlaceTree Nat Nat} {l : List Nat} (hinv : SlotsInv t x)
    (hplace : t.place slotId = some l) {p p' : Nat} {active asked : Setting}
    (hactive : SettingAt conf (some p) (some active))
    (hasked : SettingAt conf (some p') (some asked)) (hfuel : conf.length < fuel)
    (hintervals : ∀ e ∈ asked.endpoints, e.IntervalOk deviceSpeed) {a : Nat}
    {settings : List (BitVec 8)} (halternate : alternateSettings slotId x = some (a, settings))
    (hindex : index.toNat < settings.length) :
    ∃ status input y,
      replaceSetting conf fuel ringPCS slotId deviceSpeed index value controller p p'
          (clearedInput slotId x) x =
        .ok (status, input, settingAfter a (settings.set index.toNat value) status y) ∧
      x.setInterfaceRings controller slotId (active.endpoints.map UsbEndpointDescriptor.dci)
          (ringDcis asked.endpoints) = some (status, y) ∧
      (status.isError = false → ReplacesEndpoints ringPCS slotId deviceSpeed active.endpoints
        asked.endpoints x y input) := by
  obtain ⟨hnumber, hloop⟩ := forEndpoints_setting (dropEndpoint slotId controller) hactive hfuel
    (.success, { input := clearedInput slotId x, x := x })
  obtain ⟨stopped, y, hstop, hstopped⟩ :=
    stopEndpoints_inv controller hinv hplace (active.endpoints.map UsbEndpointDescriptor.dci)
  obtain ⟨status', s, hrun, rfl, herror, hsame, hdrops⟩ := runEndpoints_drop
    (s := { input := clearedInput slotId x, x := x }) hstop .success rfl
  have hkept := (alternateSettings_stopEndpoints _ hstop).trans halternate
  unfold replaceSetting XhcSlots.setInterfaceRings
  rw [hnumber, hstop]
  show ∃ status input y, (forEndpoints conf fuel (dropEndpoint slotId controller)
    (active.interface.byte 4).toNat (p + 9)
      (.success, { input := clearedInput slotId x, x := x }) >>= _) = _ ∧ _
  rw [hloop, hrun]
  show ∃ status input y, (if status'.isError = true then
    pure (status', s.input, s.x) else _) = _ ∧ _
  dsimp only
  -- A stop that fails ends the function; otherwise the endpoints of the other setting follow.
  by_cases hstatus : stopped.isError = true
  · obtain rfl := hsame hstatus
    rw [if_pos hstatus, if_pos hstatus]
    refine ⟨status', s.input, s.x, ?_, rfl, ?_⟩
    · unfold settingAfter
      rw [if_pos hstatus]
      rfl
    · intro hsuccess
      rw [hstatus] at hsuccess
      cases hsuccess
  · have hdropped := hdrops (Bool.eq_false_iff.mpr hstatus)
    have hlive := (hstopped.tree.live_iff slotId).mpr ⟨l, hplace⟩
    have hlength := Nat.le_of_eq (hstopped.memory.rings slotId hlive).symm
    obtain ⟨u, hsetup, hinit⟩ := initializeEndpoints_ok ringPCS
      (s := { input := s.input, x := s.x }) hlength hintervals
    have hfinal : alternateSettings slotId u.x = some (a, settings) := by
      rw [hinit.slots, alternateSettings_createRings]
      exact hkept
    rw [if_neg (by rw [herror]; exact hstatus), if_neg hstatus,
      xhcInitializeEndpointContext_setting hasked hfuel, hsetup]
    refine ⟨_, _, _, replaceSetting_end { u with maxDci := max s.maxDci u.maxDci } hfinal hindex,
      ?_, ?_⟩
    · unfold configureEndpoints
      rw [hinit.slots]
      rfl
    · intro _
      exact hdropped.replaces controller hinit

/-- What is done to the contents of the array is not seen in the input context. -/
theorem ReplacesEndpoints.same {dropped added : List UsbEndpointDescriptor} {y : XhcSlots}
    {input : InputContext}
    (h : ReplacesEndpoints ringPCS slotId deviceSpeed dropped added x y input)
    (hsame : SameDevices y x') :
    ReplacesEndpoints ringPCS slotId deviceSpeed dropped added x x' input where
  dropFlags := h.dropFlags
  addFlags := h.addFlags
  slot := h.slot
  others := h.others
  contexts hdistinct e he := by
    obtain ⟨context, hcontext, hep⟩ := h.contexts hdistinct e he
    refine ⟨context, hcontext, hep.trans ?_⟩
    rw [hsame.withRing]

/-- In every state that is reached, if the array of the active settings has been allocated and has
an entry for the interface, then the last settings that are the active one and the one that
is asked for are found in the configuration.  If both are there, the endpoints of the first are
stopped and their rings freed up to the first that cannot be stopped; only after the last of them
are the rings and contexts made for those of the second.  The setting is the active one if the
command succeeds and only then.  If one of the two is missing, nothing is done.

Without an entry for the interface, a setting of it brings the function to a halt. -/
theorem setInterface_endpoints (c : Configuration) (hregular : controller.Regular)
    (hleft : 6 ≤ left) (h : SlotsReachable controller left x) (hlive : x.isLive slotId = true)
    (hfuel : c.bytes.length < fuel) :
    (∀ a settings, alternateSettings slotId x = some (a, settings) →
      index.toNat < settings.length →
      (∀ active asked,
        (c.settings.filter (Setting.isActive (settings.getD index.toNat 0) index)).getLast? =
          some active →
        (c.settings.filter
          (Setting.isAsked (settings.getD index.toNat 0) index value)).getLast? = some asked →
        (∀ e ∈ asked.endpoints, e.IntervalOk deviceSpeed) →
        ∃ status input y x',
          xhcSetInterface c.bytes fuel ringPCS slotId deviceSpeed index value controller x =
            .ok (status, input, x') ∧
          x.setInterfaceRings controller slotId (active.endpoints.map UsbEndpointDescriptor.dci)
              (ringDcis asked.endpoints) = some (status, y) ∧
          x' = settingAfter a (settings.set index.toNat value) status y ∧
          (status.isError = false → ReplacesEndpoints ringPCS slotId deviceSpeed
            active.endpoints asked.endpoints x x' input) ∧
          OwnsApart x') ∧
      ((c.settings.filter (Setting.isActive (settings.getD index.toNat 0) index)).getLast? =
          none ∨
        (c.settings.filter
          (Setting.isAsked (settings.getD index.toNat 0) index value)).getLast? = none →
        xhcSetInterface c.bytes fuel ringPCS slotId deviceSpeed index value controller x =
          .ok (.success, clearedInput slotId x, x))) ∧
    ((∀ a settings, alternateSettings slotId x = some (a, settings) →
        settings.length ≤ index.toNat) →
      (∃ s ∈ c.settings, s.interface.byte 2 = index) →
      xhcSetInterface c.bytes fuel ringPCS slotId deviceSpeed index value controller x =
        .error .outside) := by
  constructor
  · intro a settings halternate hindex
    have hcurrent : activeSettingAt slotId x index = .ok (settings.getD index.toNat 0) := by
      rw [activeSettingAt_eq halternate, byteAt_of_lt hindex, List.getD_eq_getElem?_getD,
        List.getElem?_eq_getElem hindex]
      rfl
    refine ⟨?_, setInterface_missing c hfuel hcurrent⟩
    intro active asked hactive hasked hintervals
    obtain ⟨t, hinv⟩ := h.slotsInv hregular hleft
    obtain ⟨l, hplace⟩ := (hinv.tree.live_iff slotId).mp hlive
    have hdescriptors := length_le_of_descriptorsAt c.descriptorsAt
    obtain ⟨found, hfind, hfoundActive, hfoundAsked⟩ := c.findSettings hcurrent value
      (hdescriptors.trans_lt hfuel)
    rw [hactive] at hfoundActive
    rw [hasked] at hfoundAsked
    -- Both settings exist, so the walk has found both.
    obtain ⟨p | p, p' | p'⟩ := found
    · exact hfoundActive.elim
    · exact hfoundActive.elim
    · exact hfoundAsked.elim
    obtain ⟨status, input, y, hreplace, hrings, hcontext⟩ := replaceSetting_spec hinv hplace
      hfoundActive hfoundAsked hfuel hintervals halternate hindex
    have hdcis : ∀ dci ∈ ringDcis asked.endpoints, dci ≤ 31 := by
      intro dci hdci
      obtain ⟨e, _, rfl⟩ := List.mem_map.mp hdci
      exact Nat.le_of_lt_succ e.dci_lt
    obtain ⟨_, _, hrings', hnext⟩ := setInterfaceRings_inv controller hinv hplace
      (active.endpoints.map UsbEndpointDescriptor.dci) hdcis
    rw [hrings, Option.some.injEq, Prod.mk.injEq] at hrings'
    obtain ⟨rfl, rfl⟩ := hrings'
    have hsame := sameDevices_settingAfter a (settings.set index.toNat value) status y
    refine ⟨status, input, y, _, ?_, hrings, rfl, fun hsuccess => (hcontext hsuccess).same hsame,
      (hnext.same hsame).memory⟩
    rw [xhcSetInterface_eq, hfind]
    exact hreplace
  · intro hshort hsome
    refine setInterface_outside c hfuel ?_ hsome
    cases halternate : alternateSettings slotId x with
    | none =>
        unfold activeSettingAt
        rw [Option.map_eq_none_iff.mp halternate]
    | some array =>
        rw [activeSettingAt_eq halternate]
        unfold byteAt
        rw [List.getElem?_eq_none (hshort array.1 array.2 halternate)]

end Function

/-! ### The device behind the hub -/

/-- Its configuration is read and set. -/
def configureDevice : List SlotCall :=
  [.deviceDescriptor 2 (some 1), .configDescriptor 2 0 twoSettings.bytes,
    .setConfig 2 (fun _ => true) .full 1]

def configured : XhcSlots := (runSlotCalls (severalSlots 4) 6 configureDevice behindHub).getD {}

theorem configured_reachable : SlotsReachable (severalSlots 4) 6 configured := by
  have hsome : (runSlotCalls (severalSlots 4) 6 configureDevice behindHub).isSome = true := by
    decide +kernel
  unfold configured
  cases hrun : runSlotCalls (severalSlots 4) 6 configureDevice behindHub with
  | none =>
      rw [hrun] at hsome
      cases hsome
  | some x => exact behindHub_reachable.runSlotCalls hrun

theorem setInterface_endpoints_twoSettings :
    ∃ status input y x',
      xhcSetInterface twoSettings.bytes 50 (fun _ => true) 2 .full 0 1 (severalSlots 4)
          configured =
        .ok (status, input, x') ∧
      configured.setInterfaceRings (severalSlots 4) 2
          ((oneEndpoint 0 0x81).endpoints.map UsbEndpointDescriptor.dci)
          (ringDcis (oneEndpoint 1 0x02).endpoints) = some (status, y) ∧
      x' = settingAfter 10 [1] status y ∧
      (status.isError = false → ReplacesEndpoints (fun _ => true) 2 .full
        (oneEndpoint 0 0x81).endpoints (oneEndpoint 1 0x02).endpoints configured x' input) ∧
      OwnsApart x' :=
  ((setInterface_endpoints twoSettings fourSlots_regular (Nat.le_refl 6) configured_reachable
    (by decide +kernel) (by decide)).1 10 [0] (by decide +kernel) (by decide)).1 _ _ rfl rfl
      (intervalOk_oneEndpoint 1 0x02 .full)

end XhciDxe
end EfiApps
