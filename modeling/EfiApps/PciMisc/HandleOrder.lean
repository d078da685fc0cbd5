import EfiApps.PciMisc.Conversions
import EfiApps.PciMisc.Topology

/-!
# The tree does not depend on the order of the handles

In another order the handles give the same records with other `PciDeviceID`s, at other
addresses.  The sort undoes that: the functions have different locations, and a root bridge
has been numbered before a function at its location.  So the arrays hold the same records in
the same order, and the records find the same parents, since the only tie that a
`PciDeviceID` breaks is the one between the host bridge and a root bridge.

What does depend on the order is the status: it is the one of the last handle.
-/

namespace EfiApps
namespace PciMisc

/-! ## What is to be the same -/

/-- The record without its `PciDeviceID` and its links to other records. -/
def PciIoDevice.eraseIdentity (d : PciIoDevice) : PciIoDevice := (d.setPciDeviceID 0).eraseLinks

/-- What `GetPciDevices` has when the bridge tree is complete, and the status it returns in
the end: nothing after the handles assigns to `Status`. -/
structure Devices where
  status : EfiStatus
  heap : Heap
  pciDeviceArray : List Addr

/-- `GetPciDevices` up to the bridge tree. -/
def getPciDevices (performQuickSort : PerformQuickSort) (fuel₀ fuel : Nat)
    (roots : List RootHandle) (handles : List PciIoHandle) : Run Devices := do
  let s ← collect fuel₀ roots handles
  if s.pciDeviceArray = [] then .ok ⟨s.status, s.heap, []⟩
  else do
    let (heap, array) ← buildTree performQuickSort fuel s
    .ok ⟨s.status, heap, array⟩

/-- `rename` takes the records of one array to those of the other, in the order of the array,
and each to one with the same registers. -/
structure RenamesRecords (rename : Addr → Addr) (r r' : Devices) : Prop where
  host : rename hostBridge = hostBridge
  array : r'.pciDeviceArray = r.pciDeviceArray.map rename
  injective : ∀ a ∈ hostBridge :: r.pciDeviceArray, ∀ b ∈ hostBridge :: r.pciDeviceArray,
    rename a = rename b → a = b
  registers : ∀ a ∈ hostBridge :: r.pciDeviceArray,
    (r'.heap (rename a)).eraseIdentity = (r.heap a).eraseIdentity

/-- It takes one tree to the other: the parent of each record to its parent, and the list of its
children to the list of its children. -/
structure Renames (rename : Addr → Addr) (r r' : Devices) : Prop
    extends RenamesRecords rename r r' where
  parent : ∀ a ∈ hostBridge :: r.pciDeviceArray,
    (r'.heap (rename a)).parent = (r.heap a).parent.map rename
  children : ∀ p ∈ hostBridge :: r.pciDeviceArray, ∃ l,
    Linked (fun a => (r.heap a).nextSibling) (r.heap p).firstChild l ∧
      Linked (fun a => (r'.heap a).nextSibling) (r'.heap (rename p)).firstChild (l.map rename)

/-- The trees are the same up to the `PciDeviceID`s. -/
def SameDeviceTree (r r' : Devices) : Prop := ∃ rename, Renames rename r r'

namespace RenamesRecords

variable {rename : Addr → Addr} {r r' : Devices}

/-- What does not depend on the links and the `PciDeviceID` is the same. -/
theorem field (h : RenamesRecords rename r r') {β : Type _} (f : PciIoDevice → β)
    (hf : ∀ d, f d.eraseIdentity = f d) {a : Addr} (ha : a ∈ hostBridge :: r.pciDeviceArray) :
    f (r'.heap (rename a)) = f (r.heap a) := by
  rw [← hf, h.registers a ha, hf]

theorem mem (h : RenamesRecords rename r r') {a : Addr} (ha : a ∈ r.pciDeviceArray) :
    rename a ∈ r'.pciDeviceArray := by
  rw [h.array]
  exact List.mem_map_of_mem ha

/-- The array of the other tree has no other records. -/
theorem exists_of_mem (h : RenamesRecords rename r r') {a' : Addr} (ha : a' ∈ r'.pciDeviceArray) :
    ∃ a ∈ r.pciDeviceArray, rename a = a' := by
  rw [h.array] at ha
  exact List.mem_map.mp ha

end RenamesRecords

/-! ## The sorted arrays -/

/-- No two functions have the same location. -/
def DistinctFunctions (heap : Heap) (devices : List Addr) : Prop :=
  ∀ a ∈ devices, ∀ b ∈ devices, (heap a).isSegment = false → (heap b).isSegment = false →
    location (heap a) = location (heap b) → a = b

/-- What the sort goes by, without the `PciDeviceID`: the location, and root bridges before
functions. -/
def sortKey (d : PciIoDevice) : (Nat ×ₗ Nat ×ₗ Nat ×ₗ Nat) ×ₗ Nat :=
  toLex (location d, if d.isSegment then 0 else 1)

section sorted

variable {s s' : Collect} {array array' : List Addr}

theorem Numbered.pairwise_sortKey (h : Numbered s) (hperm : array.Perm s.pciDeviceArray)
    (hsorted : array.Pairwise fun a b => s.compare a b ≤ 0) :
    (array.map fun a => (s.heap a).setPciDeviceID 0).Pairwise fun d e => sortKey d ≤ sortKey e := by
  refine List.pairwise_map.mpr (hsorted.imp_of_mem fun {a b} ha hb hcompare => ?_)
  show sortKey (s.heap a) ≤ sortKey (s.heap b)
  unfold sortKey
  rw [Prod.Lex.toLex_le_toLex]
  rcases (comparePciDevice_le_iff _ _).mp hcompare with hlt | ⟨heq, hid⟩
  · exact .inl hlt
  · refine .inr ⟨heq, ?_⟩
    cases hroot : (s.heap b).isSegment with
    | false => split <;> simp
    | true =>
        -- A function at the location of a root bridge has the greater number.
        cases hfunction : (s.heap a).isSegment with
        | true => simp
        | false =>
            have hfirst := h.rootsFirst b (hperm.mem_iff.mp hb) a (hperm.mem_iff.mp ha) hroot
              hfunction
            exact absurd hfirst (not_lt.mpr hid)

/-- On a configured topology the key determines the record. -/
theorem Configured.sortKey_inj (hconf : Configured s.heap s.pciDeviceArray)
    (hdistinct : DistinctFunctions s.heap s.pciDeviceArray) {a b : Addr}
    (ha : a ∈ s.pciDeviceArray) (hb : b ∈ s.pciDeviceArray)
    (hkey : sortKey (s.heap a) = sortKey (s.heap b)) : a = b := by
  unfold sortKey at hkey
  simp only [EmbeddingLike.apply_eq_iff_eq, Prod.mk.injEq] at hkey
  obtain ⟨hlocation, hkind⟩ := hkey
  have hsegment : (s.heap a).segmentNumber = (s.heap b).segmentNumber :=
    congrArg (fun k => (ofLex k).1) hlocation
  cases hroot : (s.heap a).isSegment with
  | true =>
      cases hroot' : (s.heap b).isSegment with
      | true => exact hconf.rootUnique a ha b hb hroot hroot' hsegment
      | false => simp [hroot, hroot'] at hkind
  | false =>
      cases hroot' : (s.heap b).isSegment with
      | true => simp [hroot, hroot'] at hkind
      | false => exact hdistinct a ha b hb hroot hroot' hlocation

/-- The sorted arrays hold the same records in the same order. -/
theorem SameRecords.sorted_eq (h : SameRecords s s') (hconf : Configured s.heap s.pciDeviceArray)
    (hdistinct : DistinctFunctions s.heap s.pciDeviceArray)
    (hperm : array.Perm s.pciDeviceArray) (hperm' : array'.Perm s'.pciDeviceArray)
    (hsorted : array.Pairwise fun a b => s.compare a b ≤ 0)
    (hsorted' : array'.Pairwise fun a b => s'.compare a b ≤ 0) :
    (array.map fun a => (s.heap a).setPciDeviceID 0) =
      array'.map fun a => (s'.heap a).setPciDeviceID 0 := by
  have hrecords : (array.map fun a => (s.heap a).setPciDeviceID 0).Perm
      (array'.map fun a => (s'.heap a).setPciDeviceID 0) :=
    (hperm.map _).trans (h.records.trans (hperm'.map _).symm)
  refine List.Perm.eq_of_pairwise (fun d e hd he hle hge => ?_)
    (h.left.pairwise_sortKey hperm hsorted) (h.right.pairwise_sortKey hperm' hsorted') hrecords
  obtain ⟨a, ha, rfl⟩ := List.mem_map.mp hd
  obtain ⟨b, hb, rfl⟩ := List.mem_map.mp (hrecords.mem_iff.mpr he)
  have hkey : sortKey (s.heap a) = sortKey (s.heap b) := le_antisymm hle hge
  rw [hconf.sortKey_inj hdistinct (hperm.mem_iff.mp ha) (hperm.mem_iff.mp hb) hkey]

end sorted

/-! ## The bridge trees -/

/-- Collections of the same records, sorted, can be renamed to each other. -/
theorem SameRecords.exists_renames {s s' : Collect} {array array' : List Addr}
    (h : SameRecords s s') (hperm : array.Perm s.pciDeviceArray)
    (hperm' : array'.Perm s'.pciDeviceArray)
    (hsame : (array.map fun a => (s.heap a).setPciDeviceID 0) =
      array'.map fun a => (s'.heap a).setPciDeviceID 0) :
    ∃ rename, RenamesRecords rename ⟨s.status, s.heap, array⟩ ⟨s'.status, s'.heap, array'⟩ := by
  have hfree : ∀ {s : Collect} {array : List Addr}, Collected s → array.Perm s.pciDeviceArray →
      (hostBridge :: array).Nodup := by
    intro s array hs hperm
    refine List.nodup_cons.mpr ⟨fun hmem => ?_, hperm.nodup_iff.mpr hs.nodup⟩
    exact absurd (hs.mem _ (hperm.mem_iff.mp hmem)).1 (lt_irrefl _)
  have hnodup := hfree h.left.toCollected hperm
  have hlength : array.length = array'.length := by
    have hlength := congrArg List.length hsame
    rwa [List.length_map, List.length_map] at hlength
  obtain ⟨rename, hrename⟩ := exists_map_eq hnodup
    (show (hostBridge :: array).length = (hostBridge :: array').length from
      congrArg Nat.succ hlength)
  obtain ⟨hhost, harray⟩ := List.cons.inj hrename
  refine ⟨rename, hhost, harray.symm, fun a ha b hb hab => ?_, fun a ha => ?_⟩
  · have hinjective : (List.map rename (hostBridge :: array)).Nodup := by
      rw [hrename]
      exact hfree h.right.toCollected hperm'
    exact List.inj_on_of_nodup_map hinjective ha hb hab
  · rcases List.mem_cons.mp ha with rfl | ha
    · show (s'.heap (rename hostBridge)).eraseIdentity = (s.heap hostBridge).eraseIdentity
      rw [hhost]
      exact (congrArg (PciIoDevice.setPciDeviceID 0) h.host.symm :)
    · rw [← harray, List.map_map] at hsame
      exact (congrArg PciIoDevice.eraseLinks (List.map_inj_left.mp hsame a ha).symm :)

/-- The order of the array is nothing to these predicates. -/
theorem nearestBridge_perm {heap : Heap} {array devices : List Addr} (hperm : array.Perm devices)
    {b c : Addr} : NearestBridge heap array b c ↔ NearestBridge heap devices b c := by
  constructor
  · rintro ⟨hb, hc, hbridge, hclaims, hnearest⟩
    exact ⟨hperm.mem_iff.mp hb, hperm.mem_iff.mp hc, hbridge, hclaims, fun d hd =>
      hnearest d (hperm.mem_iff.mpr hd)⟩
  · rintro ⟨hb, hc, hbridge, hclaims, hnearest⟩
    exact ⟨hperm.mem_iff.mpr hb, hperm.mem_iff.mpr hc, hbridge, hclaims, fun d hd =>
      hnearest d (hperm.mem_iff.mp hd)⟩

theorem Configured.of_perm {heap : Heap} {array devices : List Addr} (hperm : array.Perm devices)
    (h : Configured heap devices) : Configured heap array := by
  have hmem : ∀ {a}, a ∈ array → a ∈ devices := fun ha => hperm.mem_iff.mp ha
  refine ⟨fun b hb => ?_, fun r hr r' hr' => h.rootUnique r (hmem hr) r' (hmem hr'),
    fun c hc => h.behind c (hmem hc), fun c hc d hd => h.distinct c (hmem hc) d (hmem hd),
    fun c hc d hd => h.laminar c (hmem hc) d (hmem hd)⟩
  obtain ⟨r, hr, hroot⟩ := h.hasRoot b (hmem hb)
  exact ⟨r, hperm.mem_iff.mpr hr, hroot⟩

/-- The renaming keeps the nearest bridge: on a configured topology two bridges never start at
one bus, so that no `PciDeviceID` has a say in it. -/
theorem nearestBridge_rename {rename : Addr → Addr} {r r' : Devices} (h : RenamesRecords rename r r')
    (hconf : Configured r.heap r.pciDeviceArray) {b c : Addr} (hb : b ∈ r.pciDeviceArray)
    (hc : c ∈ r.pciDeviceArray) :
    NearestBridge r'.heap r'.pciDeviceArray (rename b) (rename c) ↔
      NearestBridge r.heap r.pciDeviceArray b c := by
  have hin : ∀ {a}, a ∈ r.pciDeviceArray → a ∈ hostBridge :: r.pciDeviceArray := fun ha =>
    List.mem_cons_of_mem _ ha
  have hne : ∀ {a}, a ∈ r.pciDeviceArray → (rename a ≠ rename b ↔ a ≠ b) := fun {a} ha =>
    not_congr ⟨h.injective a (hin ha) b (hin hb), congrArg rename⟩
  have htype : ∀ {a}, a ∈ r.pciDeviceArray →
      (r'.heap (rename a)).pciType1 = (r.heap a).pciType1 := fun ha =>
    h.field PciIoDevice.pciType1 (fun _ => rfl) (hin ha)
  have hsegment : ∀ {a}, a ∈ r.pciDeviceArray →
      (r'.heap (rename a)).segmentNumber = (r.heap a).segmentNumber := fun ha =>
    h.field PciIoDevice.segmentNumber (fun _ => rfl) (hin ha)
  have hbus : (r'.heap (rename b)).busNumber = (r.heap b).busNumber :=
    h.field PciIoDevice.busNumber (fun _ => rfl) (hin hb)
  have hpci : ∀ {a}, a ∈ r.pciDeviceArray → (r'.heap (rename a)).pci = (r.heap a).pci := fun ha =>
    h.field PciIoDevice.pci (fun _ => rfl) (hin ha)
  constructor
  · rintro ⟨-, -, hbridge, hclaims, hnearest⟩
    rw [htype hc] at hbridge
    rw [hne hc, hsegment hb, hsegment hc, hpci hc, hbus] at hclaims
    refine ⟨hb, hc, hbridge, hclaims, fun d hd hbridge' hdb hdsegment hlow hhigh => ?_⟩
    have hle := hnearest (rename d) (h.mem hd)
    rw [htype hd, hne hd, hsegment hb, hsegment hd, hpci hd, hpci hc, hbus] at hle
    rcases hle hbridge' hdb hdsegment hlow hhigh with hlt | ⟨heq, -⟩
    · exact .inl hlt
    · obtain rfl := hconf.distinct d hd c hc hbridge' hbridge
        (hdsegment.symm.trans hclaims.2.1) heq
      exact .inr ⟨rfl, le_rfl⟩
  · rintro ⟨-, -, hbridge, hclaims, hnearest⟩
    refine ⟨h.mem hb, h.mem hc, ?_, ?_, fun d' hd' hbridge' hdb hdsegment hlow hhigh => ?_⟩
    · rwa [htype hc]
    · rwa [hne hc, hsegment hb, hsegment hc, hpci hc, hbus]
    · obtain ⟨d, hd, rfl⟩ := h.exists_of_mem hd'
      rw [htype hd] at hbridge'
      rw [hne hd] at hdb
      rw [hsegment hb, hsegment hd] at hdsegment
      rw [hpci hd, hbus] at hlow hhigh
      rcases hnearest d hd hbridge' hdb hdsegment hlow hhigh with hlt | ⟨heq, -⟩
      · rw [hpci hd, hpci hc]
        exact .inl hlt
      · obtain rfl := hconf.distinct d hd c hc hbridge' hbridge
          (hdsegment.symm.trans hclaims.2.1) heq
        exact .inr ⟨rfl, le_rfl⟩

section trees

variable {s s' : Collect} {array array' : List Addr} {heap heap' : Heap} {rename : Addr → Addr}

/-- The children of a record are the records with this parent. -/
theorem Built.childrenOf_eq (h : Built s array heap) (p : Addr) :
    childrenOf s.heap (array.filter fun a => (s.heap a).pciType1) array p =
      array.filter fun b => (heap b).parent = some p := by
  unfold childrenOf
  refine List.filter_congr fun b hb => ?_
  obtain ⟨q, hq, -⟩ := h.best b hb
  obtain ⟨q', hmem, hparent, -⟩ := h.mem_childrenOf hb
  have hsame : some q = some q' := hq.symm.trans (by simpa using (List.mem_filter.mp hmem).2)
  rw [hq, hparent, hsame]

/-- The renaming takes the parent of a record to its parent. -/
theorem Built.parent_rename (h : Built s array heap) (h' : Built s' array' heap')
    (hs : Collected s) (hs' : Collected s') (hconf : Configured s.heap s.pciDeviceArray)
    (hrename : RenamesRecords rename ⟨s.status, s.heap, array⟩ ⟨s'.status, s'.heap, array'⟩)
    {a : Addr} (ha : a ∈ hostBridge :: array) :
    (heap' (rename a)).parent = (heap a).parent.map rename := by
  have hhost : hostBridge ∉ array := fun hmem =>
    absurd (hs.mem _ (h.perm.mem_iff.mp hmem)).1 (lt_irrefl _)
  have hhost' : hostBridge ∉ array' := fun hmem =>
    absurd (hs'.mem _ (h'.perm.mem_iff.mp hmem)).1 (lt_irrefl _)
  have hnear : ∀ {c}, a ∈ array → c ∈ array →
      ((heap' (rename a)).parent = some (rename c) ↔ (heap a).parent = some c) := by
    intro c ha hc
    have hc' : rename c ≠ hostBridge := fun heq => hhost' (heq ▸ hrename.mem hc)
    have hne : c ≠ hostBridge := fun heq => hhost (heq ▸ hc)
    rw [h'.parent_eq_iff hs' (hrename.mem ha) hc', h.parent_eq_iff hs ha hne,
      ← nearestBridge_perm h'.perm, ← nearestBridge_perm h.perm]
    exact nearestBridge_rename hrename (hconf.of_perm h.perm) ha hc
  rcases List.mem_cons.mp ha with rfl | ha
  · rw [hrename.host, h.unlisted hostBridge hhost, h'.unlisted hostBridge hhost']
    rfl
  · obtain ⟨p, hp, hparent⟩ := h.parent_mem ha
    rw [hparent, Option.map_some]
    rcases List.mem_cons.mp hp with rfl | hp
    · -- A bridge above the renamed record would be one above the record.
      obtain ⟨p', hp', hparent'⟩ := h'.parent_mem (hrename.mem ha)
      rw [hparent', hrename.host]
      rcases List.mem_cons.mp hp' with rfl | hp'
      · rfl
      · obtain ⟨c, hc, rfl⟩ := hrename.exists_of_mem hp'
        have hbelow := (hnear ha hc).mp hparent'
        rw [hparent, Option.some.injEq] at hbelow
        exact absurd (hbelow ▸ hc) hhost
    · exact (hnear ha hp).mpr hparent

/-- The trees over the same records are the same. -/
theorem Built.renames (h : Built s array heap) (h' : Built s' array' heap') (hs : Collected s)
    (hs' : Collected s') (hconf : Configured s.heap s.pciDeviceArray)
    (hrename : RenamesRecords rename ⟨s.status, s.heap, array⟩ ⟨s'.status, s'.heap, array'⟩) :
    Renames rename ⟨s.status, heap, array⟩ ⟨s'.status, heap', array'⟩ := by
  have hparent : ∀ a ∈ hostBridge :: array,
      (heap' (rename a)).parent = (heap a).parent.map rename := fun a ha =>
    h.parent_rename h' hs hs' hconf hrename ha
  refine ⟨⟨hrename.host, hrename.array, hrename.injective, fun a ha => ?_⟩, hparent,
    fun p hp => ⟨_, h.children.linked p, ?_⟩⟩
  · show (heap' (rename a)).eraseIdentity = (heap a).eraseIdentity
    calc (heap' (rename a)).eraseIdentity
        = (s'.heap (rename a)).eraseIdentity :=
          (congrArg (PciIoDevice.setPciDeviceID 0) (h'.registers (rename a)) :)
      _ = (s.heap a).eraseIdentity := hrename.registers a ha
      _ = (heap a).eraseIdentity :=
          (congrArg (PciIoDevice.setPciDeviceID 0) (h.registers a).symm :)
  · have hlinked := h'.children.linked (rename p)
    rw [h'.childrenOf_eq, show array' = array.map rename from hrename.array,
      List.filter_map] at hlinked
    rw [h.childrenOf_eq]
    have hsame : (array.filter fun b => (heap b).parent = some p) =
        array.filter ((fun b => decide ((heap' b).parent = some (rename p))) ∘ rename) := by
      refine List.filter_congr fun b hb => ?_
      obtain ⟨q, hq, hbq⟩ := h.parent_mem hb
      rw [Function.comp_apply, hparent b (List.mem_cons_of_mem _ hb), hbq, Option.map_some]
      apply decide_eq_decide.mpr
      rw [Option.some.injEq, Option.some.injEq]
      exact ⟨congrArg rename, hrename.injective q hq p hp⟩
    rwa [hsame]

end trees

/-! ## Two orders -/

/-- With a root bridge, sorted records and enough fuel, the tree is the one that `Built`
describes. -/
theorem getPciDevices_built {fuel₀ : Nat} {roots : List RootHandle} {handles : List PciIoHandle}
    {s : Collect} {performQuickSort : PerformQuickSort} (hroots : convertedRoots roots ≠ [])
    (hs : collect fuel₀ roots handles = .ok s)
    (hsort : Sorts performQuickSort s.compare s.pciDeviceArray) (fuel : Nat)
    (hfuel : s.pciDeviceArray.length < fuel) :
    ∃ heap, getPciDevices performQuickSort fuel₀ fuel roots handles =
        .ok ⟨s.status, heap, performQuickSort s.compare s.pciDeviceArray⟩ ∧
      Built s (performQuickSort s.compare s.pciDeviceArray) heap := by
  obtain ⟨heap, hrun, hbuilt⟩ := buildTree_built (collected_collect hs) hsort.perm hfuel
  refine ⟨heap, ?_, hbuilt⟩
  unfold getPciDevices
  rw [hs, Run.ok_bind, if_neg (collect_array_ne_nil hroots hs), hrun]
  rfl

/-- In every other order of the handles `GetPciDevices` builds the same tree, and it returns the
same status exactly if the conversions of the last handles end with the same one. -/
theorem getPciDevices_reorder_iff {fuel₀ : Nat} {roots : List RootHandle}
    {handles handles' : List PciIoHandle} (hperm : handles.Perm handles')
    (hroots : convertedRoots roots ≠ []) {s : Collect}
    (hs : collect fuel₀ roots handles = .ok s) (hconf : Configured s.heap s.pciDeviceArray)
    (hdistinct : DistinctFunctions s.heap s.pciDeviceArray) {performQuickSort : PerformQuickSort}
    (hsort : ∀ handles s, collect fuel₀ roots handles = .ok s →
      Sorts performQuickSort s.compare s.pciDeviceArray) :
    ∃ fuel₁, ∀ fuel ≥ fuel₁, ∃ r r',
      getPciDevices performQuickSort fuel₀ fuel roots handles = .ok r ∧
      getPciDevices performQuickSort fuel₀ fuel roots handles' = .ok r' ∧
      (r'.status = r.status ∧ SameDeviceTree r r' ↔
        lastStatus fuel₀ handles' = lastStatus fuel₀ handles) := by
  obtain ⟨s', hs', hsame, hstatus⟩ := collect_reorder hperm hroots hs
  have hsorts := hsort handles s hs
  have hsorts' := hsort handles' s' hs'
  refine ⟨s.pciDeviceArray.length + s'.pciDeviceArray.length + 1, fun fuel hfuel => ?_⟩
  obtain ⟨heap, hrun, hbuilt⟩ := getPciDevices_built hroots hs hsorts fuel (by omega)
  obtain ⟨heap', hrun', hbuilt'⟩ := getPciDevices_built hroots hs' hsorts' fuel (by omega)
  refine ⟨_, _, hrun, hrun', ?_⟩
  have htree : SameDeviceTree ⟨s.status, heap, performQuickSort s.compare s.pciDeviceArray⟩
      ⟨s'.status, heap', performQuickSort s'.compare s'.pciDeviceArray⟩ := by
    have hrecords := hsame.sorted_eq hconf hdistinct hsorts.perm hsorts'.perm hsorts.sorted
      hsorts'.sorted
    obtain ⟨rename, hrename⟩ := hsame.exists_renames hsorts.perm hsorts'.perm hrecords
    exact ⟨rename, hbuilt.renames hbuilt' hsame.left.toCollected hsame.right.toCollected hconf
      hrename⟩
  constructor
  · rintro ⟨heq, -⟩
    exact (hstatus.mp heq.symm).symm
  · exact fun hlast => ⟨(hstatus.mpr hlast.symm).symm, htree⟩

theorem getPciDevices_reorder_iff_smallMachine :
    ∃ fuel₁, ∀ fuel ≥ fuel₁, ∃ r r',
      getPciDevices sortByInsertion 0 fuel [goodRoot 7 0]
        [quietHandle 1 0 [], quietHandle 0 3 bridgeDwords] = .ok r ∧
      getPciDevices sortByInsertion 0 fuel [goodRoot 7 0]
        [quietHandle 0 3 bridgeDwords, quietHandle 1 0 []] = .ok r' ∧
      (r'.status = r.status ∧ SameDeviceTree r r' ↔
        lastStatus 0 [quietHandle 0 3 bridgeDwords, quietHandle 1 0 []] =
          lastStatus 0 [quietHandle 1 0 [], quietHandle 0 3 bridgeDwords]) :=
  getPciDevices_reorder_iff (.swap _ _ _) (by decide +kernel)
    (show collect 0 [goodRoot 7 0] [quietHandle 1 0 [], quietHandle 0 3 bridgeDwords] =
      .ok smallMachine from rfl)
    configured_smallMachine (by unfold DistinctFunctions; decide +kernel)
    fun _ s _ => sorts_sortByInsertion s

/-- A handle whose function does not answer: its header cannot be read. -/
def deadHandle (bus device : UInt8) : PciIoHandle :=
  { quietHandle bus device [] with reader := fun _ _ => (.error 7, []) }

/-- If the last function does not answer, its error is what `GetPciDevices` returns; if another
one does not answer, it returns success. -/
theorem getPciDevices_reorder_deadHandle :
    ∃ s, collect 0 [goodRoot 7 0] [quietHandle 0 3 bridgeDwords, deadHandle 0 4] = .ok s ∧
      Configured s.heap s.pciDeviceArray ∧ DistinctFunctions s.heap s.pciDeviceArray ∧
      (∀ s : Collect, Sorts sortByInsertion s.compare s.pciDeviceArray) ∧
      (getPciDevices sortByInsertion 0 3 [goodRoot 7 0]
        [quietHandle 0 3 bridgeDwords, deadHandle 0 4]).map Devices.status = .ok (.error 7) ∧
      (getPciDevices sortByInsertion 0 3 [goodRoot 7 0]
        [deadHandle 0 4, quietHandle 0 3 bridgeDwords]).map Devices.status = .ok .success := by
  refine ⟨_, rfl, ?_, ?_, sorts_sortByInsertion, by decide +kernel, by decide +kernel⟩
  · constructor <;> decide +kernel
  · unfold DistinctFunctions
    decide +kernel

end PciMisc
end EfiApps
