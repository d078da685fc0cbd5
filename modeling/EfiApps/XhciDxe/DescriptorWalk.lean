import EfiApps.XhciDxe.ConfigDescriptor

/-!
# Walks over well-formed descriptors

A configuration that is a sequence of descriptors, each with its own length in its first byte,
is walked over descriptor by descriptor.  Then the walks are functions of the sequence: what
they do at offsets is what they would do to a list of descriptors.
-/

namespace EfiApps
namespace XhciDxe

open PciMisc (EfiStatus)

/-! ## Descriptors -/

/-- A descriptor as the format has it; one of an interface has the length that it is to have. -/
structure Descriptor where
  bytes : List (BitVec 8)
  two_le : 2 ≤ bytes.length
  length_eq : (bytes.getD 0 0).toNat = bytes.length
  interface : bytes.getD 1 0 = interfaceType → bytes.length = 9

namespace Descriptor

variable (d : Descriptor)

def byte (k : Nat) : BitVec 8 := d.bytes.getD k 0

def isInterface : Bool := d.byte 1 == interfaceType

def isDefaultSetting : Bool := d.isInterface && d.byte 3 == 0

def isEndpoint : Bool := d.byte 1 == endpointType

/-- `NumEndpoints`, of an interface. -/
def numEndpoints : Nat := (d.byte 4).toNat

/-- An endpoint, unless the descriptor is too short. -/
def endpoint : Option UsbEndpointDescriptor :=
  if d.bytes.length < 7 then none
  else some
    { endpointAddress := d.byte 2
      attributes := d.byte 3
      maxPacketSize := d.byte 5 ++ d.byte 4
      interval := d.byte 6 }

end Descriptor

/-- From `p` on there are these descriptors. -/
abbrev DescriptorsAt (conf : List (BitVec 8)) (p : Nat) (ds : List Descriptor) : Prop :=
  RecordsAt Descriptor.bytes conf p ds

section Bytes

variable {conf : List (BitVec 8)} {p k : Nat} {d : Descriptor} {ds : List Descriptor}

theorem byteAt_descriptor (h : DescriptorsAt conf p (d :: ds)) (hk : k < d.bytes.length) :
    byteAt conf (p + k) = .ok (d.byte k) := by
  unfold byteAt Descriptor.byte
  rw [h.getElem? hk, List.getD_eq_getElem?_getD, List.getElem?_eq_getElem hk]
  rfl

theorem byteAt_outside (h : DescriptorsAt conf p []) : byteAt conf (p + k) = .error .outside := by
  unfold byteAt
  rw [h.getElem?_nil]

theorem byteAt_length (h : DescriptorsAt conf p (d :: ds)) : byteAt conf p = .ok (d.byte 0) :=
  byteAt_descriptor (k := 0) h (Nat.lt_of_lt_of_le Nat.zero_lt_two d.two_le)

theorem byteAt_type (h : DescriptorsAt conf p (d :: ds)) :
    byteAt conf (p + 1) = .ok (d.byte 1) :=
  byteAt_descriptor h d.two_le

theorem Descriptor.byte_zero (d : Descriptor) : (d.byte 0).toNat = d.bytes.length := d.length_eq

theorem nextDescriptor_eq (h : DescriptorsAt conf p (d :: ds)) :
    nextDescriptor conf p = .ok (p + d.bytes.length) := by
  unfold nextDescriptor
  rw [byteAt_length h, ← d.byte_zero]
  rfl

theorem Descriptor.length_of_isInterface (hinterface : d.isInterface = true) :
    d.bytes.length = 9 := d.interface (beq_iff_eq.mp hinterface)

theorem endpointAt_eq (h : DescriptorsAt conf p (d :: ds)) (hlength : ¬ d.bytes.length < 7) :
    ∃ e, endpointAt conf p = .ok e ∧ d.endpoint = some e := by
  unfold endpointAt Descriptor.endpoint
  rw [byteAt_descriptor (k := 2) h (by omega), byteAt_descriptor (k := 3) h (by omega),
    byteAt_descriptor (k := 4) h (by omega), byteAt_descriptor (k := 5) h (by omega),
    byteAt_descriptor (k := 6) h (by omega), if_neg hlength]
  exact ⟨_, rfl, rfl⟩

/-- The tests of the searches. -/
theorem isDefaultSettingAt_eq (h : DescriptorsAt conf p (d :: ds)) :
    isDefaultSettingAt conf p = .ok d.isDefaultSetting := by
  unfold isDefaultSettingAt Descriptor.isDefaultSetting
  rw [byteAt_type h]
  show (if d.byte 1 ≠ interfaceType then _ else _) = _
  by_cases hinterface : d.isInterface = true
  · have hlength := d.length_of_isInterface hinterface
    rw [if_neg (by simpa [Descriptor.isInterface] using hinterface), hinterface,
      byteAt_descriptor (k := 3) h (by omega)]
    rfl
  · rw [if_pos (by simpa [Descriptor.isInterface] using hinterface),
      Bool.eq_false_iff.mpr hinterface]
    rfl

end Bytes

/-! ## The walks, descriptor by descriptor -/

section Visits

/-- The next `numEp` endpoints among the descriptors. -/
def visitEndpoints {σ : Type} (body : UsbEndpointDescriptor → σ → DescriptorWalk (Bool × σ)) :
    Nat → List Descriptor → σ → DescriptorWalk σ
  | 0, _, s => .ok s
  | numEp + 1, ds, s =>
      match ds.dropWhile fun d => !d.isEndpoint with
      | [] => .error .outside
      | d :: rest =>
          match d.endpoint with
          | none => visitEndpoints body numEp rest s
          | some e => do
              let (goOn, s) ← body e s
              if goOn then visitEndpoints body numEp rest s else return s

variable (ringPCS : Nat → Bool) (slotId : Nat) (deviceSpeed : UsbSpeed)

/-- The endpoints of the setting `d`, with the descriptors behind it. -/
def visitSetting (d : Descriptor) (rest : List Descriptor) (input : InputContext) (x : XhcSlots) :
    DescriptorWalk EndpointsState :=
  visitEndpoints (fun e s => return (true, ← initializeEndpoint ringPCS slotId deviceSpeed e s))
    d.numEndpoints rest { input := input, x := x }

/-- The next interfaces among the descriptors. -/
def visitInterfaces : Nat → List Descriptor → EndpointsState → DescriptorWalk EndpointsState
  | 0, _, s => .ok s
  | numInterfaces + 1, ds, s =>
      match ds.dropWhile fun d => !d.isDefaultSetting with
      | [] => .error .outside
      | d :: rest => do
          let t ← visitSetting ringPCS slotId deviceSpeed d rest s.input s.x
          visitInterfaces numInterfaces rest { t with maxDci := max s.maxDci t.maxDci }

variable {conf : List (BitVec 8)} {p fuel : Nat} {ds : List Descriptor}

/-- The search for an endpoint. -/
theorem skipToEndpoint (h : DescriptorsAt conf p ds) (hfuel : ds.length < fuel) :
    SkipsTo Descriptor.bytes conf .outside
      (skipUntil (fun p => return (← byteAt conf (p + 1)) == endpointType) (nextDescriptor conf)
        .outOfFuel fuel p)
      (ds.dropWhile fun d => !d.isEndpoint) := by
  apply skipUntil_records _ _ _ h hfuel
  · intro p d ds h
    rw [byteAt_type h]
    rfl
  · intro p d ds h _
    exact nextDescriptor_eq h
  · intro p h
    rw [byteAt_outside h]
    rfl

/-- The search for the first setting of an interface. -/
theorem skipToInterface (h : DescriptorsAt conf p ds) (hfuel : ds.length < fuel) :
    SkipsTo Descriptor.bytes conf .outside
      (skipUntil (isDefaultSettingAt conf) (nextDescriptor conf) .outOfFuel fuel p)
      (ds.dropWhile fun d => !d.isDefaultSetting) := by
  apply skipUntil_records _ _ _ h hfuel
  · intro p d ds h
    exact isDefaultSettingAt_eq h
  · intro p d ds h _
    exact nextDescriptor_eq h
  · intro p h
    unfold isDefaultSettingAt
    rw [byteAt_outside h]
    rfl

theorem length_dropWhile_cons {α : Type _} {f : α → Bool} {l rest : List α} {a : α}
    (h : l.dropWhile f = a :: rest) : rest.length < l.length := by
  have hle := (List.dropWhile_suffix f (l := l)).length_le
  rw [h, List.length_cons] at hle
  exact hle

/-- The loop over endpoints. -/
theorem forEndpoints_eq {σ : Type}
    (body : UsbEndpointDescriptor → σ → DescriptorWalk (Bool × σ)) (numEp : Nat)
    (h : DescriptorsAt conf p ds) (hfuel : ds.length < fuel) (s : σ) :
    forEndpoints conf fuel body numEp p s = visitEndpoints body numEp ds s := by
  induction numEp generalizing p ds s with
  | zero => rfl
  | succ numEp ih =>
      have hskip := skipToEndpoint h hfuel
      rw [forEndpoints, visitEndpoints]
      cases hfound : ds.dropWhile fun d => !d.isEndpoint with
      | nil =>
          rw [hfound] at hskip
          dsimp only
          rw [show skipUntil _ _ _ _ _ = _ from hskip]
          rfl
      | cons d rest =>
          rw [hfound] at hskip
          obtain ⟨q, hskip, hq⟩ := hskip
          have hrest : rest.length < fuel := (length_dropWhile_cons hfound).trans hfuel
          dsimp only
          rw [hskip]
          show (byteAt conf q >>= _) = _
          rw [byteAt_length hq]
          show (if (d.byte 0).toNat < 7 then _ else _) = _
          rw [d.byte_zero]
          by_cases hshort : d.bytes.length < 7
          · have hnone : d.endpoint = none := if_pos hshort
            rw [if_pos hshort, hnone]
            exact ih hq.next hrest s
          · obtain ⟨e, hread, hsome⟩ := endpointAt_eq hq hshort
            rw [if_neg hshort, hsome, hread]
            show (body e s >>= _) = (body e s >>= _)
            congr 1
            funext ⟨goOn, s'⟩
            cases goOn with
            | false => rfl
            | true => exact ih hq.next hrest s'

/-- The walk that starts behind the descriptor of an interface. -/
theorem xhcInitializeEndpointContext_eq {d : Descriptor} (hinterface : d.isInterface = true)
    (h : DescriptorsAt conf p (d :: ds)) (hfuel : ds.length < fuel) (input : InputContext)
    (x : XhcSlots) :
    xhcInitializeEndpointContext conf fuel ringPCS slotId deviceSpeed p input x =
      visitSetting ringPCS slotId deviceSpeed d ds input x := by
  have hlength := d.length_of_isInterface hinterface
  have hnext := h.next
  rw [hlength] at hnext
  unfold xhcInitializeEndpointContext
  rw [byteAt_descriptor (k := 4) h (by omega)]
  exact forEndpoints_eq _ _ hnext hfuel _

/-- The loop over interfaces. -/
theorem forInterfaces_eq (numInterfaces : Nat) (h : DescriptorsAt conf p ds)
    (hfuel : ds.length < fuel) (s : EndpointsState) :
    forInterfaces conf fuel ringPCS slotId deviceSpeed numInterfaces p s =
      visitInterfaces ringPCS slotId deviceSpeed numInterfaces ds s := by
  induction numInterfaces generalizing p ds s with
  | zero => rfl
  | succ numInterfaces ih =>
      have hskip := skipToInterface h hfuel
      rw [forInterfaces, visitInterfaces]
      cases hfound : ds.dropWhile fun d => !d.isDefaultSetting with
      | nil =>
          rw [hfound] at hskip
          dsimp only
          rw [show skipUntil _ _ _ _ _ = _ from hskip]
          rfl
      | cons d rest =>
          rw [hfound] at hskip
          obtain ⟨q, hskip, hq⟩ := hskip
          have hrest : rest.length < fuel := (length_dropWhile_cons hfound).trans hfuel
          have hwanted : d.isDefaultSetting = true := wanted_of_dropWhile_not hfound
          have hinterface : d.isInterface = true := (Bool.and_eq_true_iff.mp hwanted).1
          have hlength := d.length_of_isInterface hinterface
          dsimp only
          rw [hskip]
          show (byteAt conf q >>= _) = _
          rw [byteAt_length hq]
          show (if (d.byte 0).toNat < 9 then _ else _) = _
          rw [d.byte_zero, if_neg (by omega),
            xhcInitializeEndpointContext_eq ringPCS slotId deviceSpeed hinterface hq hrest]
          congr 1
          funext t
          exact ih hq.next hrest _

end Visits

end XhciDxe
end EfiApps
