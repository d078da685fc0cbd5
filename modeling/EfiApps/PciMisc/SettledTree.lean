import EfiApps.PciMisc.HiddenTree
import EfiApps.PciMisc.MoveEffect

/-!
# Trees that a search begins with

Before and after the search behind a bridge, the `Save` copies of every record hold its bus
numbers, and every bridge leads up to a root bridge or, past none, to the host bridge.  The
tree that `GetPciDevices` has built is like that, and so is every tree whose records have
been kept.
-/

namespace EfiApps
namespace PciMisc

/-! ## What a search keeps of a record -/

/-- The records are of the same function, and have the same `Save` copies and the same unused
range. -/
structure PciIoDevice.Kept (d d' : PciIoDevice) : Prop extends d.SameFunction d' where
  saveBusNumber : d'.saveBusNumber = d.saveBusNumber
  savedBus : ∀ reg, d'.savedBus reg = d.savedBus reg
  bigUnusedStart : d'.bigUnusedStart = d.bigUnusedStart
  bigUnusedEnd : d'.bigUnusedEnd = d.bigUnusedEnd

namespace PciIoDevice.Kept

variable {d d' : PciIoDevice}

theorem of_eraseLinks (h : d'.eraseLinks = d.eraseLinks) : d.Kept d' where
  toSameFunction := .of_eraseLinks h
  saveBusNumber := (congrArg PciIoDevice.saveBusNumber h :)
  savedBus reg := savedBus_of_eraseLinks reg h
  bigUnusedStart := (congrArg PciIoDevice.bigUnusedStart h :)
  bigUnusedEnd := (congrArg PciIoDevice.bigUnusedEnd h :)

/-- The order does not matter. -/
theorem eraseLinks_eraseBuses (d : PciIoDevice) :
    d.eraseBuses.eraseLinks = d.eraseLinks.eraseBuses := rfl

/-- A header is determined by its bus numbers and the rest of it. -/
theorem pci_eq (h : d'.eraseBuses.eraseLinks = d.eraseBuses.eraseLinks)
    (hbuses : ∀ reg, d'.bridgeBus reg = d.bridgeBus reg) : d'.pci = d.pci := by
  have hprimary : d'.pci.primaryBus = d.pci.primaryBus := hbuses .primary
  have hsecondary : d'.pci.secondaryBus = d.pci.secondaryBus := hbuses .secondary
  have hsubordinate : d'.pci.subordinateBus = d.pci.subordinateBus := hbuses .subordinate
  have hrest : d'.eraseBuses.pci = d.eraseBuses.pci := (congrArg PciIoDevice.pci h :)
  calc d'.pci = { d'.eraseBuses.pci with
          primaryBus := d'.pci.primaryBus
          secondaryBus := d'.pci.secondaryBus
          subordinateBus := d'.pci.subordinateBus } := rfl
    _ = { d.eraseBuses.pci with
          primaryBus := d.pci.primaryBus
          secondaryBus := d.pci.secondaryBus
          subordinateBus := d.pci.subordinateBus } := by
        rw [hrest, hprimary, hsecondary, hsubordinate]
    _ = d.pci := rfl

theorem of_eraseBuses (h : d'.eraseBuses.eraseLinks = d.eraseBuses.eraseLinks)
    (hbus : d'.busNumber = d.busNumber) (hbuses : ∀ reg, d'.bridgeBus reg = d.bridgeBus reg) :
    d.Kept d' where
  pciRootBridgeIo := (congrArg PciIoDevice.pciRootBridgeIo h :)
  segmentNumber := (congrArg PciIoDevice.segmentNumber h :)
  busNumber := hbus
  deviceNumber := (congrArg PciIoDevice.deviceNumber h :)
  functionNumber := (congrArg PciIoDevice.functionNumber h :)
  pci := pci_eq h hbuses
  pciType1 := (congrArg PciIoDevice.pciType1 h :)
  isSegment := (congrArg PciIoDevice.isSegment h :)
  saveBusNumber := (congrArg PciIoDevice.saveBusNumber h :)
  savedBus reg := by
    cases reg
    · exact (congrArg PciIoDevice.savePrimaryBus h :)
    · exact (congrArg PciIoDevice.saveSecondaryBus h :)
    · exact (congrArg PciIoDevice.saveSubordinateBus h :)
  bigUnusedStart := (congrArg PciIoDevice.bigUnusedStart h :)
  bigUnusedEnd := (congrArg PciIoDevice.bigUnusedEnd h :)

theorem bridgeBus (h : d.Kept d') (reg : BusRegister) : d'.bridgeBus reg = d.bridgeBus reg := by
  cases reg
  · exact (congrArg PciHeader.primaryBus h.pci :)
  · exact (congrArg PciHeader.secondaryBus h.pci :)
  · exact (congrArg PciHeader.subordinateBus h.pci :)

theorem settled (h : d.Kept d') (hd : d.Settled) : d'.Settled where
  busNumber := by
    rw [h.saveBusNumber, h.busNumber]
    exact hd.busNumber
  bridge htype hsegment reg := by
    rw [h.pciType1] at htype
    rw [h.isSegment] at hsegment
    rw [h.savedBus, h.bridgeBus]
    exact hd.bridge htype hsegment reg

end PciIoDevice.Kept

/-- A move that ended before it wrote anything. -/
theorem SameButNew.kept {heap heap' : Heap} (h : SameButNew heap heap') (a : Addr) :
    (heap a).Kept (heap' a) :=
  .of_eraseBuses (congrArg PciIoDevice.eraseLinks (h.sameButBuses a)) (h.busNumber a)
    (h.bridgeBus a)

/-! ## Moved and moved back -/

section moved

variable {heap heapA heapB heapC : Heap} {path : List Addr} {a b : Addr}

/-- A settled record that was there before the move has its bus numbers back after it. -/
theorem MovedBack.kept_old (hback : MovedBack heapB path heapC)
    (hmoved : MovedPath heap path heapA) (hpath : BridgePath heap path b)
    (hlinks : (heapB a).eraseLinks = (heapA a).eraseLinks)
    (hparent : (heapB a).parent = (heap a).parent)
    (hsettled : (heap a).parent ≠ none → (heap a).Settled) : (heap a).Kept (heapC a) := by
  have hkept : (heapA a).Kept (heapB a) := .of_eraseLinks hlinks
  have hsame : (heapC a).eraseBuses.eraseLinks = (heap a).eraseBuses.eraseLinks := by
    rw [hback.same a, PciIoDevice.Kept.eraseLinks_eraseBuses, hlinks,
      ← PciIoDevice.Kept.eraseLinks_eraseBuses, hmoved.same a]
  refine .of_eraseBuses hsame ?_ fun reg => ?_
  · rw [hback.busNumber]
    split
    · rename_i hkid
      obtain ⟨p, -, hp⟩ := hkid
      rw [hkept.saveBusNumber, hmoved.same.saveBusNumber]
      exact (hsettled (by simp [← hparent, hp])).busNumber
    · rename_i hkid
      rw [hkept.busNumber]
      refine hmoved.busNumber a fun p hp hparent' => hkid ⟨p, hp, hparent.trans hparent'⟩
  · rw [hback.bridgeBus]
    split
    · rename_i ha
      rw [hkept.savedBus, hmoved.same.savedBus]
      exact (hsettled (hpath.parent_ne_none ha)).bridge (hpath.pciType1_of_mem ha)
        (hpath.isSegment_of_mem ha) reg
    · rename_i ha
      rw [hkept.bridgeBus]
      exact hmoved.bridgeBus a ha reg

/-- A settled record that came in between, behind the path, keeps its bus numbers. -/
theorem MovedBack.kept_new (hback : MovedBack heapB path heapC) (ha : a ∉ path)
    (hsettled : (heapB a).Settled) : (heapB a).Kept (heapC a) := by
  refine .of_eraseBuses (congrArg PciIoDevice.eraseLinks (hback.same a)) ?_ fun reg => ?_
  · rw [hback.busNumber]
    split
    · exact hsettled.busNumber
    · rfl
  · rw [hback.bridgeBus, if_neg ha]

end moved

/-! ## Trees of settled records -/

/-- The bridges from `a` up to, and without, the host bridge, with no root bridge among them. -/
def OrphanPath (heap : Heap) : List Addr → Addr → Prop
  | [], a => a = hostBridge ∧ (heap a).isSegment = false
  | b :: path, a => a = b ∧ (heap b).isSegment = false ∧
      ∃ p, (heap b).parent = some p ∧ OrphanPath heap path p

/-- The way up from the bridge `b`: to the root bridge with the unused range, or else to the
host bridge. -/
def PathUp (heap : Heap) (path : List Addr) (b : Addr) : Option (UInt8 × UInt8) → Prop
  | some unused => ∃ root, BridgePath heap path b ∧ LeadsTo heap path b root ∧
      ((heap root).bigUnusedStart, (heap root).bigUnusedEnd) = unused
  | none => OrphanPath heap path b

/-- The lists of a tree of bridges below the host bridge, in which only bridges have children
and the `Save` copies hold the bus numbers. -/
structure SettledTree (heap : Heap) (bridges : List Addr) (children : Addr → List Addr)
    (brk : Addr) : Prop where
  links : TreeLinks heap bridges children brk
  path : ∀ b ∈ bridges, ∃ path unused, PathUp heap path b unused
  settled : ∀ a, (heap a).parent ≠ none → (heap a).Settled
  parentType : ∀ a p, (heap a).parent = some p → (heap p).pciType1 = true

/-- The search sees the bridge `b` as `v`. -/
structure SeenAs (heap : Heap) (b : Addr) (v : BridgeView) : Prop where
  same : v.device.SameFunction (heap b)
  path : ∃ path, PathUp heap path b v.unused ∧ path.length = v.level
  parent : (heap b).isSegment = false → ∃ p, (heap b).parent = some p ∧ (heap p).pci = v.parentPci

/-- The records in use are kept, at their places in the tree. -/
structure KeptHeap (heap heap' : Heap) (brk : Addr) : Prop where
  kept : ∀ a < brk, (heap a).Kept (heap' a)
  parent : ∀ a < brk, (heap' a).parent = (heap a).parent

section tree

variable {heap heap' : Heap} {bridges : List Addr} {children : Addr → List Addr} {brk : Addr}
  {path : List Addr} {b root : Addr} {v : BridgeView}

theorem BridgePath.parent_root (hpath : BridgePath heap path b) (hroot : LeadsTo heap path b root) :
    (heap root).parent ≠ none := by
  induction path generalizing b with
  | nil =>
      obtain rfl := hroot.root_eq
      exact hpath.2
  | cons c path ih =>
      obtain ⟨rfl, hsegment, -, p, hp, hrest⟩ := hpath
      exact ih hrest (hroot.tail hsegment hp)

theorem KeptHeap.bridgePath (h : KeptHeap heap heap' brk)
    (htree : TreeLinks heap bridges children brk) (hpath : BridgePath heap path b) :
    BridgePath heap' path b :=
  hpath.congr (fun c hc => h.parent c (htree.lt_of_parent hc))
    (fun c hc => (h.kept c (htree.lt_of_parent hc)).isSegment)
    fun c hc => (h.kept c (htree.lt_of_parent hc)).pciType1

theorem KeptHeap.leadsTo (h : KeptHeap heap heap' brk)
    (htree : TreeLinks heap bridges children brk) (hpath : BridgePath heap path b)
    (hroot : LeadsTo heap path b root) : LeadsTo heap' path b root := by
  refine Linked.congr hroot fun c hc => ?_
  have hlt : c < brk := by
    apply htree.lt_of_parent
    rcases List.mem_append.mp hc with hc | hc
    · exact hpath.parent_ne_none hc
    · obtain rfl := List.mem_singleton.mp hc
      exact hpath.parent_root hroot
  rw [(h.kept c hlt).isSegment, h.parent c hlt]

theorem KeptHeap.orphanPath (h : KeptHeap heap heap' brk)
    (htree : TreeLinks heap bridges children brk) (hpath : OrphanPath heap path b) :
    OrphanPath heap' path b := by
  induction path generalizing b with
  | nil =>
      obtain ⟨rfl, hsegment⟩ := hpath
      exact ⟨rfl, (h.kept hostBridge htree.hostBridge_lt).isSegment.trans hsegment⟩
  | cons c path ih =>
      obtain ⟨rfl, hsegment, p, hp, hrest⟩ := hpath
      have hlt : b < brk := htree.lt_of_parent (by simp [hp])
      exact ⟨rfl, (h.kept b hlt).isSegment.trans hsegment, p, (h.parent b hlt).trans hp, ih hrest⟩

theorem KeptHeap.pathUp (h : KeptHeap heap heap' brk)
    (htree : TreeLinks heap bridges children brk) {unused : Option (UInt8 × UInt8)}
    (hpath : PathUp heap path b unused) : PathUp heap' path b unused := by
  cases unused with
  | none => exact h.orphanPath htree hpath
  | some unused =>
      obtain ⟨root, hpath, hroot, hunused⟩ := hpath
      have hlt : root < brk := htree.lt_of_parent (hpath.parent_root hroot)
      refine ⟨root, h.bridgePath htree hpath, h.leadsTo htree hpath hroot, ?_⟩
      rw [(h.kept root hlt).bigUnusedStart, (h.kept root hlt).bigUnusedEnd, hunused]

/-- A new bridge below another one. -/
theorem PathUp.cons {a : Addr} {unused : Option (UInt8 × UInt8)} (hpath : PathUp heap path b unused)
    (hsegment : (heap a).isSegment = false) (htype : (heap a).pciType1 = true)
    (hparent : (heap a).parent = some b) : PathUp heap (a :: path) a unused := by
  cases unused with
  | none => exact ⟨rfl, hsegment, b, hparent, hpath⟩
  | some unused =>
      obtain ⟨root, hpath, hroot, hunused⟩ := hpath
      refine ⟨root, ⟨rfl, hsegment, htype, b, hparent, hpath⟩, ⟨rfl, ?_⟩, hunused⟩
      dsimp only
      rw [hsegment, if_neg Bool.false_ne_true, hparent]
      exact hroot

/-- Nothing is above the host bridge. -/
theorem TreeLinks.hostBridge_parent (h : TreeLinks heap bridges children brk) :
    (heap hostBridge).parent = none := by
  by_contra hparent
  obtain ⟨p, hp⟩ := Option.ne_none_iff_exists'.mp hparent
  exact h.host p (h.parent hostBridge p hp)

/-- A record with children is in use. -/
theorem TreeLinks.parent_lt (h : TreeLinks heap bridges children brk) {a p : Addr}
    (hp : (heap a).parent = some p) : p < brk := by
  by_contra hge
  have hmem := h.parent a p hp
  rw [h.unused p (not_lt.mp hge)] at hmem
  cases hmem

theorem KeptHeap.seenAs (h : KeptHeap heap heap' brk)
    (htree : TreeLinks heap bridges children brk) (hb : b < brk) (hseen : SeenAs heap b v) :
    SeenAs heap' b v := by
  obtain ⟨hsame, ⟨path, hpath, hlevel⟩, hparent⟩ := hseen
  refine ⟨hsame.trans (h.kept b hb).toSameFunction, ⟨path, h.pathUp htree hpath, hlevel⟩,
    fun hsegment => ?_⟩
  rw [(h.kept b hb).isSegment] at hsegment
  obtain ⟨p, hp, hpci⟩ := hparent hsegment
  refine ⟨p, (h.parent b hb).trans hp, ?_⟩
  rw [(h.kept p (htree.parent_lt hp)).pci, hpci]

end tree

/-! ## The tree that `GetPciDevices` builds -/

/-- What is true of a collection beside `Collected`. -/
structure SettledCollect (s : Collect) : Prop extends Collected s where
  settled : ∀ a ∈ s.pciDeviceArray, (s.heap a).Settled
  hostType : (s.heap hostBridge).pciType1 = true
  hostSegment : (s.heap hostBridge).isSegment = false

theorem settledCollect_init : SettledCollect .init where
  toCollected := collected_init
  settled a ha := by cases ha
  hostType := rfl
  hostSegment := rfl

theorem SettledCollect.push {s : Collect} (h : SettledCollect s) {d : PciIoDevice}
    (hd : d.Fresh (s.heap hostBridge).nextPciDeviceID) (hsettled : d.Settled) (status : EfiStatus) :
    SettledCollect (s.push d status) := by
  refine ⟨h.toCollected.push hd status, fun a ha => ?_, ?_, ?_⟩
  · rcases Collect.mem_push_array.mp ha with ha | rfl
    · rw [h.push_heap_of_mem ha]
      exact h.settled a ha
    · rw [Collect.push_heap_new h.brk]
      exact hsettled
  · rw [Collect.push_heap_host h.brk]
    exact h.hostType
  · rw [Collect.push_heap_host h.brk]
    exact h.hostSegment

theorem SettledCollect.status {s : Collect} (h : SettledCollect s) (status : EfiStatus) :
    SettledCollect { s with status := status } :=
  ⟨h.toCollected.status status, h.settled, h.hostType, h.hostSegment⟩

theorem SettledCollect.getRoot {s : Collect} (h : SettledCollect s) (handle : RootHandle) :
    SettledCollect (getRoot s handle) := by
  rcases getRoot_cases s handle with ⟨status, hs⟩ | hs
  · rw [hs]
    exact h.status status
  · rw [hs]
    refine h.push (fresh_initRootBridge handle.io _) ⟨rfl, fun _ hsegment => ?_⟩ _
    cases hsegment

theorem SettledCollect.getDevice {fuel : Nat} {s s' : Collect} (h : SettledCollect s)
    {handle : PciIoHandle} (hs : getDevice fuel s handle = .ok s') : SettledCollect s' := by
  rcases getDevice_cases hs with ⟨status, rfl⟩ | ⟨status, d, hd, rfl⟩
  · exact h.status status
  · exact h.push (PciIoHandle.fresh_of_filledIn hd) hd.settled status

/-- Every collection that returns satisfies `SettledCollect`. -/
theorem settledCollect_collect {fuel : Nat} {roots : List RootHandle} {handles : List PciIoHandle}
    {s : Collect} (hs : collect fuel roots handles = .ok s) : SettledCollect s :=
  collect_invariant settledCollect_init (fun _ handle h => h.getRoot handle)
    (fun _ _ _ h hs => h.getDevice hs) hs

section built

variable {s : Collect} {array : List Addr} {heap : Heap}

/-- Only bridges have children. -/
theorem Built.parentType (h : Built s array heap) (hs : SettledCollect s) {a p : Addr}
    (hp : (heap a).parent = some p) : (heap p).pciType1 = true := by
  have ha : a ∈ array := by
    by_contra hnot
    rw [h.unlisted a hnot] at hp
    cases hp
  obtain ⟨q, -, hq, hbest⟩ := h.mem_childrenOf ha
  obtain rfl : q = p := Option.some.inj (hq.symm.trans hp)
  rw [h.registers.pciType1]
  rcases List.mem_cons.mp hbest.mem with rfl | hmem
  · exact hs.hostType
  · exact (List.mem_filter.mp hmem).2

/-- In a tree every bridge has a way up. -/
theorem Built.exists_pathUp (h : Built s array heap) (hs : SettledCollect s)
    (htree : IsDeviceTree heap array) {b : Addr} (hb : b ∈ array)
    (htype : (heap b).pciType1 = true) : ∃ path unused, PathUp heap path b unused := by
  obtain ⟨l, hl, -⟩ := htree.climbs b hb
  induction l generalizing b with
  | nil =>
      obtain rfl : b = hostBridge := Option.some.inj hl.1
      exact absurd (hs.mem hostBridge (h.perm.mem_iff.mp hb)).1 (lt_irrefl _)
  | cons c l ih =>
      obtain ⟨hc, hl⟩ := hl
      obtain rfl : b = c := Option.some.inj hc
      obtain ⟨p, hmem, hp⟩ := h.parent_mem hb
      cases hsegment : (heap b).isSegment with
      | true =>
          exact ⟨[], some _, b, ⟨hsegment, by simp [hp]⟩, ⟨rfl, if_pos hsegment⟩, rfl⟩
      | false =>
          rcases List.mem_cons.mp hmem with rfl | hmem
          · refine ⟨[b], none, rfl, hsegment, hostBridge, hp, rfl, ?_⟩
            rw [h.registers.isSegment]
            exact hs.hostSegment
          · have hl : Linked (fun a => (heap a).parent) (heap b).parent (l ++ [hostBridge]) := hl
            rw [hp] at hl
            obtain ⟨path, unused, hpath⟩ := ih hmem (h.parentType hs hp) hl
            exact ⟨b :: path, unused, hpath.cons hsegment htype hp⟩

/-- The tree that `GetPciDevices` builds is settled. -/
theorem Built.settledTree (h : Built s array heap) (hs : SettledCollect s)
    (htree : IsDeviceTree heap array) :
    SettledTree heap (array.filter fun a => (s.heap a).pciType1)
      (childrenOf s.heap (array.filter fun a => (s.heap a).pciType1) array) s.brk where
  links := h.treeLinks hs.toCollected
  path b hb := by
    obtain ⟨hb, htype⟩ := List.mem_filter.mp hb
    exact h.exists_pathUp hs htree hb ((h.registers.pciType1 b).trans htype)
  settled a ha := by
    have hmem : a ∈ array := by
      by_contra hnot
      exact ha (h.unlisted a hnot)
    exact (hs.settled a (h.perm.mem_iff.mp hmem)).congr (h.registers a)
  parentType _ _ hp := h.parentType hs hp

end built

end PciMisc
end EfiApps
