import EfiApps.Lib.RelatedLists
import EfiApps.PciMisc.Capabilities
import EfiApps.PciMisc.Collect
import Mathlib.Data.List.Perm.Basic

/-!
# What the order of the handles decides

The loop over the `PciIo` handles converts one handle after the other.  What becomes of a
handle does not depend on the handles before it, except that the record gets the next
`PciDeviceID`; and the status that is left in the end is the one of the last handle.
-/

namespace EfiApps
namespace PciMisc

/-- The record with another `PciDeviceID`. -/
def PciIoDevice.setPciDeviceID (id : Nat) (d : PciIoDevice) : PciIoDevice :=
  { d with pciDeviceID := id }

/-! ## One handle -/

section convert

variable {reader : ConfigReader} {fuel : Nat}

theorem fillInPciExpressCap_setPciDeviceID (d : PciIoDevice) (id t : Nat) :
    fillInPciExpressCap reader fuel (d.setPciDeviceID id) t =
      (fillInPciExpressCap reader fuel d t).map fun r => (r.1, r.2.1.setPciDeviceID id, r.2.2) := by
  have hlocate : locateCapabilityRegBlock reader fuel
      { d.setPciDeviceID id with pciExpressCapabilityOffset := 0 } pciCapabilityIdPciExp 0 t =
      locateCapabilityRegBlock reader fuel { d with pciExpressCapabilityOffset := 0 }
        pciCapabilityIdPciExp 0 t := by
    apply locateCapabilityRegBlock_congr <;> rfl
  unfold fillInPciExpressCap
  dsimp only
  rw [hlocate]
  cases locateCapabilityRegBlock reader fuel { d with pciExpressCapabilityOffset := 0 }
      pciCapabilityIdPciExp 0 t with
  | error e => rfl
  | ok r =>
      obtain ⟨status, found, t₁⟩ := r
      cases found with
      | none => rfl
      | some found =>
          have hread : pciAccessRead reader t₁ { d.setPciDeviceID id with
                isPciExp := true, pciExpressCapabilityOffset := found.1 } 16 found.1.toNat 30 =
              pciAccessRead reader t₁ { d with
                isPciExp := true, pciExpressCapabilityOffset := found.1 } 16 found.1.toNat 30 := rfl
          simp only [Run.ok_bind, hread]
          split <;> rfl

theorem saveBus_setPciDeviceID (d : PciIoDevice) (id : Nat) :
    saveBus (d.setPciDeviceID id) = (saveBus d).setPciDeviceID id := by
  unfold saveBus
  dsimp only [PciIoDevice.setPciDeviceID]
  split <;> rfl

theorem setHeader_setPciDeviceID (d : PciIoDevice) (id : Nat) (header : PciHeader) :
    (d.setPciDeviceID id).setHeader header = (d.setHeader header).setPciDeviceID id := rfl

theorem fillInPciIoDevice_setPciDeviceID (reader : ConfigReader) (fuel : Nat) (d : PciIoDevice)
    (id t : Nat) :
    fillInPciIoDevice reader fuel (d.setPciDeviceID id) t =
      (fillInPciIoDevice reader fuel d t).map fun r => (r.1, r.2.1.setPciDeviceID id, r.2.2) := by
  have hread : pciAccessRead reader t (d.setPciDeviceID id) 32 0 16 =
      pciAccessRead reader t d 32 0 16 := rfl
  rw [fillInPciIoDevice_eq, fillInPciIoDevice_eq, hread]
  generalize pciAccessRead reader t d 32 0 16 = r
  obtain ⟨status, dwords, t₁⟩ := r
  dsimp only
  split
  · rfl
  · rw [setHeader_setPciDeviceID, saveBus_setPciDeviceID, fillInPciExpressCap_setPciDeviceID]

theorem pciIoToPciIoDevice_id (handle : PciIoHandle) (id : Nat) :
    pciIoToPciIoDevice fuel handle id =
      (pciIoToPciIoDevice fuel handle 0).map fun r => (r.1, r.2.map (.setPciDeviceID id)) := by
  unfold pciIoToPciIoDevice
  split
  · rfl
  · split
    · rfl
    · have hfill := fillInPciIoDevice_setPciDeviceID handle.reader fuel (handle.located 0) id 0
      show (fillInPciIoDevice handle.reader fuel ((handle.located 0).setPciDeviceID id) 0 >>= _) =
        Except.map _ (fillInPciIoDevice handle.reader fuel (handle.located 0) 0 >>= _)
      rw [hfill]
      cases fillInPciIoDevice handle.reader fuel (handle.located 0) 0 with
      | error e => rfl
      | ok r =>
          obtain ⟨status, d, t⟩ := r
          simp only [Except.map, Run.ok_bind]
          split <;> rfl

end convert

/-- What becomes of a handle: the status that `GetPciDevices` takes over, and the record, still
without a `PciDeviceID`, if there is one. -/
def convertHandle (fuel : Nat) (handle : PciIoHandle) : Run (EfiStatus × Option PciIoDevice) :=
  if handle.handleProtocol.isError then .ok (handle.handleProtocol, none)
  else pciIoToPciIoDevice fuel handle 0

/-- The state after a handle of which `r` has become. -/
def Collect.take (s : Collect) (r : EfiStatus × Option PciIoDevice) : Collect :=
  match r.2 with
  | some d => s.push (d.setPciDeviceID (s.heap hostBridge).nextPciDeviceID) r.1
  | none => { s with status := r.1 }

theorem getDevice_eq (fuel : Nat) (s : Collect) (handle : PciIoHandle) :
    getDevice fuel s handle = (convertHandle fuel handle).map s.take := by
  unfold getDevice convertHandle
  split
  · rfl
  · rw [pciIoToPciIoDevice_id]
    cases pciIoToPciIoDevice fuel handle 0 with
    | error e => rfl
    | ok r =>
        obtain ⟨status, d⟩ := r
        cases d <;> rfl

/-! ## All handles -/

section handles

variable {fuel : Nat} {handles : List PciIoHandle} {s s' : Collect}
  {rs : List (EfiStatus × Option PciIoDevice)}

/-- The loop over the handles returns exactly if every conversion does, and then takes up one
result after the other. -/
theorem foldlM_getDevice_iff :
    handles.foldlM (getDevice fuel) s = .ok s' ↔
      ∃ rs, List.Forall₂ (fun handle r => convertHandle fuel handle = .ok r) handles rs ∧
        s' = rs.foldl Collect.take s := by
  induction handles generalizing s with
  | nil =>
      constructor
      · intro h
        exact ⟨[], .nil, (Except.ok.inj h).symm⟩
      · rintro ⟨rs, hrs, rfl⟩
        obtain rfl := List.forall₂_nil_left_iff.mp hrs
        rfl
  | cons handle handles ih =>
      rw [List.foldlM_cons, Run.bind_eq_ok, getDevice_eq]
      constructor
      · rintro ⟨s₁, hfirst, hrest⟩
        cases hconvert : convertHandle fuel handle with
        | error e =>
            rw [hconvert] at hfirst
            cases hfirst
        | ok r =>
            rw [hconvert] at hfirst
            obtain rfl := Except.ok.inj hfirst
            obtain ⟨rs, hrs, rfl⟩ := ih.mp hrest
            exact ⟨r :: rs, .cons hconvert hrs, rfl⟩
      · rintro ⟨rs, hrs, rfl⟩
        cases hrs with
        | @cons _ r _ rs hconvert hrs =>
            refine ⟨s.take r, ?_, ih.mpr ⟨rs, hrs, rfl⟩⟩
            rw [hconvert]
            rfl

/-- The status in the end is the one of the last handle. -/
theorem foldl_take_status :
    (rs.foldl Collect.take s).status = (rs.getLast?.map Prod.fst).getD s.status := by
  induction rs using List.reverseRecOn with
  | nil => rfl
  | append_singleton rs r _ =>
      rw [List.foldl_append, List.getLast?_concat]
      unfold Collect.take
      dsimp only [List.foldl_cons, List.foldl_nil, Option.map_some, Option.getD_some]
      cases r.2 <;> rfl

/-- No handle takes a record out of the array. -/
theorem foldl_take_array_ne_nil (h : s.pciDeviceArray ≠ []) :
    (rs.foldl Collect.take s).pciDeviceArray ≠ [] := by
  induction rs using List.reverseRecOn with
  | nil => exact h
  | append_singleton rs r ih =>
      rw [List.foldl_append, List.foldl_cons, List.foldl_nil]
      generalize rs.foldl Collect.take s = s₁ at ih ⊢
      unfold Collect.take
      cases r.2 with
      | none => exact ih
      | some d => exact List.append_ne_nil_of_left_ne_nil ih [s₁.brk]

/-- The records of the array, in its order and without their `PciDeviceID`. -/
def Collect.records (s : Collect) : List PciIoDevice :=
  s.pciDeviceArray.map fun a => (s.heap a).setPciDeviceID 0

/-- A record that the conversion of a handle delivers. -/
structure PciIoDevice.Converted (d : PciIoDevice) : Prop extends d.Fresh 0 where
  isSegment : d.isSegment = false

theorem converted_of_convertHandle {handle : PciIoHandle} {status : EfiStatus} {d : PciIoDevice}
    (h : convertHandle fuel handle = .ok (status, some d)) : d.Converted := by
  unfold convertHandle at h
  split at h
  · simp at h
  · have hd := filledIn_pciIoToPciIoDevice h
    exact ⟨PciIoHandle.fresh_of_filledIn hd, hd.isSegment⟩

/-- The state of the loop over the handles: the root bridges have been numbered before all
functions. -/
structure Numbered (s : Collect) : Prop extends Collected s where
  rootsFirst : ∀ a ∈ s.pciDeviceArray, ∀ b ∈ s.pciDeviceArray, (s.heap a).isSegment = true →
    (s.heap b).isSegment = false → (s.heap a).pciDeviceID < (s.heap b).pciDeviceID

theorem PciIoDevice.Converted.fresh {d : PciIoDevice} (h : d.Converted) (id : Nat) :
    (d.setPciDeviceID id).Fresh id := by
  obtain ⟨hchain, hparent, hfirst, hlast, hnext⟩ := h.toUnlinked
  exact ⟨⟨hchain, hparent, hfirst, hlast, hnext⟩, rfl, h.root⟩

theorem Numbered.take (h : Numbered s) {r : EfiStatus × Option PciIoDevice}
    (hr : ∀ d, r.2 = some d → d.Converted) :
    Numbered (s.take r) ∧ (s.take r).records = s.records ++ r.2.toList := by
  unfold Collect.take Collect.records
  cases hd : r.2 with
  | none => exact ⟨⟨h.toCollected.status r.1, h.rootsFirst⟩, (List.append_nil _).symm⟩
  | some d =>
      have hconverted := hr d hd
      have hfresh := hconverted.fresh (s.heap hostBridge).nextPciDeviceID
      dsimp only
      refine ⟨⟨h.toCollected.push hfresh r.1, fun a ha b hb hroot hfunction => ?_⟩, ?_⟩
      · rcases Collect.mem_push_array.mp ha with ha | rfl
        · rw [h.push_heap_of_mem ha] at hroot ⊢
          rcases Collect.mem_push_array.mp hb with hb | rfl
          · rw [h.push_heap_of_mem hb] at hfunction ⊢
            exact h.rootsFirst a ha b hb hroot hfunction
          · rw [Collect.push_heap_new h.brk]
            exact h.idLt a ha
        · rw [Collect.push_heap_new h.brk] at hroot
          exact absurd hroot (by simp [PciIoDevice.setPciDeviceID, hconverted.isSegment])
      · -- The records that were there are unchanged, and the new one is `d`.
        have hold : ∀ a ∈ s.pciDeviceArray,
            ((s.push (d.setPciDeviceID (s.heap hostBridge).nextPciDeviceID) r.1).heap a).setPciDeviceID 0
              = (s.heap a).setPciDeviceID 0 := by
          intro a ha
          rw [h.push_heap_of_mem ha]
        have hnew : ((s.push (d.setPciDeviceID (s.heap hostBridge).nextPciDeviceID) r.1).heap
            s.brk).setPciDeviceID 0 = d := by
          rw [Collect.push_heap_new h.brk]
          have hid := hconverted.pciDeviceID
          show d.setPciDeviceID 0 = d
          rw [← hid]
          rfl
        show (s.pciDeviceArray ++ [s.brk]).map _ = _
        rw [List.map_append, List.map_congr_left hold, List.map_singleton, hnew]
        rfl

theorem Numbered.foldl_take (h : Numbered s)
    (hrs : ∀ r ∈ rs, ∀ d, r.2 = some d → d.Converted) :
    Numbered (rs.foldl Collect.take s) ∧
      (rs.foldl Collect.take s).records = s.records ++ rs.filterMap Prod.snd := by
  induction rs using List.reverseRecOn with
  | nil => exact ⟨h, (List.append_nil _).symm⟩
  | append_singleton rs r ih =>
      obtain ⟨hnumbered, hrecords⟩ := ih fun r' hr' => hrs r' (List.mem_append_left _ hr')
      obtain ⟨hnext, hmore⟩ := hnumbered.take (hrs r (by simp))
      rw [List.foldl_append, List.foldl_cons, List.foldl_nil]
      refine ⟨hnext, ?_⟩
      rw [hmore, hrecords, List.append_assoc, List.filterMap_append]
      obtain ⟨status, d⟩ := r
      cases d <;> rfl

/-- The host bridge only counts. -/
theorem Numbered.foldl_take_host (h : Numbered s)
    (hrs : ∀ r ∈ rs, ∀ d, r.2 = some d → d.Converted) :
    ((rs.foldl Collect.take s).heap hostBridge).eraseLinks = (s.heap hostBridge).eraseLinks := by
  induction rs using List.reverseRecOn with
  | nil => rfl
  | append_singleton rs r ih =>
      have hprev : ∀ r ∈ rs, ∀ d, r.2 = some d → d.Converted := fun r' hr' =>
        hrs r' (List.mem_append_left _ hr')
      have hbrk := (h.foldl_take hprev).1.brk
      rw [List.foldl_append, List.foldl_cons, List.foldl_nil, ← ih hprev]
      generalize rs.foldl Collect.take s = s₁ at hbrk ⊢
      unfold Collect.take
      cases r.2 with
      | none => rfl
      | some d =>
          dsimp only
          rw [Collect.push_heap_host hbrk]
          rfl

end handles

/-! ## The whole collection -/

/-- The root bridges that have been converted. -/
def convertedRoots (roots : List RootHandle) : List Addr :=
  (roots.foldl getRoot .init).pciDeviceArray

theorem numbered_roots (roots : List RootHandle) : Numbered (roots.foldl getRoot .init) := by
  have honly : Collected (roots.foldl getRoot .init) ∧
      ∀ a ∈ (roots.foldl getRoot .init).pciDeviceArray,
        ((roots.foldl getRoot .init).heap a).isSegment = true := by
    induction roots using List.reverseRecOn with
    | nil => exact ⟨collected_init, fun a ha => by cases ha⟩
    | append_singleton roots handle ih =>
        obtain ⟨hcollected, hroots⟩ := ih
        rw [List.foldl_append, List.foldl_cons, List.foldl_nil]
        refine ⟨hcollected.getRoot handle, fun a ha => ?_⟩
        generalize roots.foldl getRoot .init = s at hcollected hroots ha ⊢
        rcases getRoot_cases s handle with ⟨status, hs⟩ | hs
        · rw [hs] at ha ⊢
          exact hroots a ha
        · rw [hs] at ha ⊢
          rcases Collect.mem_push_array.mp ha with ha | rfl
          · rw [hcollected.push_heap_of_mem ha]
            exact hroots a ha
          · rw [Collect.push_heap_new hcollected.brk]
            rfl
  refine ⟨honly.1, fun a _ b hb _ hfunction => ?_⟩
  rw [honly.2 b hb] at hfunction
  cases hfunction

/-- The status of the conversion of the last handle. -/
def lastStatus (fuel : Nat) (handles : List PciIoHandle) : Option EfiStatus :=
  handles.getLast?.bind fun handle =>
    match convertHandle fuel handle with
    | .ok r => some r.1
    | .error _ => none

theorem lastStatus_eq {fuel : Nat} {handles : List PciIoHandle}
    {rs : List (EfiStatus × Option PciIoDevice)}
    (hrs : List.Forall₂ (fun handle r => convertHandle fuel handle = .ok r) handles rs) :
    lastStatus fuel handles = rs.getLast?.map Prod.fst := by
  unfold lastStatus
  have hreverse := List.rel_reverse hrs
  rw [← List.head?_reverse, ← List.head?_reverse]
  generalize handles.reverse = handles', rs.reverse = rs' at hreverse ⊢
  cases hreverse with
  | nil => rfl
  | cons hr _ =>
      rw [List.head?_cons, Option.bind_some, hr]
      rfl

/-- What a collection amounts to: the results of the conversions, one after the other. -/
theorem collect_conversions {fuel : Nat} {roots : List RootHandle} {handles : List PciIoHandle}
    {s : Collect} (hroots : convertedRoots roots ≠ []) :
    collect fuel roots handles = .ok s ↔
      ∃ rs, List.Forall₂ (fun handle r => convertHandle fuel handle = .ok r) handles rs ∧
        s = rs.foldl Collect.take (roots.foldl getRoot .init) := by
  unfold collect
  dsimp only
  rw [if_neg (show ¬ (roots.foldl getRoot .init).pciDeviceArray = [] from hroots)]
  exact foldlM_getDevice_iff

theorem collect_array_ne_nil {fuel : Nat} {roots : List RootHandle} {handles : List PciIoHandle}
    {s : Collect} (hroots : convertedRoots roots ≠ []) (hs : collect fuel roots handles = .ok s) :
    s.pciDeviceArray ≠ [] := by
  obtain ⟨rs, -, rfl⟩ := (collect_conversions hroots).mp hs
  exact foldl_take_array_ne_nil hroots

/-- Two collections of the same records, in another order. -/
structure SameRecords (s s' : Collect) : Prop where
  left : Numbered s
  right : Numbered s'
  records : s.records.Perm s'.records
  host : (s.heap hostBridge).eraseLinks = (s'.heap hostBridge).eraseLinks

/-- In another order the handles give a collection of the same records, with the same status
exactly if the last handles fare alike. -/
theorem collect_reorder {fuel : Nat} {roots : List RootHandle} {handles handles' : List PciIoHandle}
    (hperm : handles.Perm handles') (hroots : convertedRoots roots ≠ []) {s : Collect}
    (hs : collect fuel roots handles = .ok s) :
    ∃ s', collect fuel roots handles' = .ok s' ∧ SameRecords s s' ∧
      (s.status = s'.status ↔ lastStatus fuel handles = lastStatus fuel handles') := by
  obtain ⟨rs, hrs, rfl⟩ := (collect_conversions hroots).mp hs
  obtain ⟨rs', hrs', hperm'⟩ := List.perm_comp_forall₂ hperm.symm hrs
  have hconverted : ∀ {handles rs}, List.Forall₂ (fun handle r => convertHandle fuel handle = .ok r)
      handles rs → ∀ r ∈ rs, ∀ d, r.2 = some d → d.Converted := by
    rintro handles rs hrs ⟨status, _⟩ hr d rfl
    obtain ⟨handle, -, hconvert⟩ := exists_of_mem_right hrs hr
    exact converted_of_convertHandle hconvert
  have hstart := numbered_roots roots
  obtain ⟨hleft, hrecords⟩ := hstart.foldl_take (hconverted hrs)
  obtain ⟨hright, hrecords'⟩ := hstart.foldl_take (hconverted hrs')
  refine ⟨_, (collect_conversions hroots).mpr ⟨rs', hrs', rfl⟩, ⟨hleft, hright, ?_, ?_⟩, ?_⟩
  · rw [hrecords, hrecords']
    exact (hperm'.symm.filterMap Prod.snd).append_left _
  · rw [hstart.foldl_take_host (hconverted hrs), hstart.foldl_take_host (hconverted hrs')]
  · rw [foldl_take_status, foldl_take_status, lastStatus_eq hrs, lastStatus_eq hrs']
    -- One list of handles is empty exactly if the other one is.
    cases hlast : rs.getLast? with
    | none =>
        rw [List.getLast?_eq_none_iff] at hlast
        rw [hlast, List.perm_nil] at hperm'
        rw [hperm']
        simp
    | some r =>
        cases hlast' : rs'.getLast? with
        | none =>
            rw [List.getLast?_eq_none_iff] at hlast'
            rw [hlast'] at hperm'
            rw [List.nil_perm.mp hperm'] at hlast
            cases hlast
        | some r' => simp

end PciMisc
end EfiApps
