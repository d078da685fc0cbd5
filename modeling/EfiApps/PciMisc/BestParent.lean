import EfiApps.Lib.Ascent
import EfiApps.PciMisc.BridgeTree

/-!
# Which parent each record gets

The search for `BestParent` returns the admissible record with the greatest
`SecondaryBus`, and among those the greatest `PciDeviceID`.  Every record is
appended to the child list of its best parent, so the child lists are always in
order.  The `Parent` links, however, form a tree only if no bridges claim each
other's bus in a ring: `BridgeRing` says so in terms of the bus numbers and bus
ranges the records were collected with, and `buildTree_isDeviceTree_iff` that
this is the exact condition.
-/

namespace EfiApps
namespace PciMisc

open Relation

/-- What the search maximises: the `SecondaryBus` and then the `PciDeviceID`. -/
def parentKey (heap : Heap) (c : Addr) : Nat ×ₗ Nat :=
  toLex ((heap c).pci.secondaryBus.toNat, (heap c).pciDeviceID)

theorem parentKey_lt_iff (heap : Heap) (b c p : Addr) :
    parentKey heap p < parentKey heap c ↔
      busDistance heap b c < busDistance heap b p ∨
        (busDistance heap b c = busDistance heap b p ∧
          (heap c).pciDeviceID > (heap p).pciDeviceID) := by
  rw [parentKey, parentKey, Prod.Lex.toLex_lt_toLex]
  unfold busDistance
  omega

theorem considerParent_eq_keepBest (heap : Heap) (b c : Addr) (bestParent : Option Addr) :
    considerParent heap b c bestParent =
      keepBest (MayAdopt heap b) (parentKey heap) bestParent c := by
  unfold considerParent keepBest
  cases bestParent with
  | none => rfl
  | some p =>
      simp only [parentKey_lt_iff heap b c p]
      by_cases hadopt : MayAdopt heap b c
      · by_cases hnear : busDistance heap b c < busDistance heap b p
        · simp [hadopt, hnear]
        · simp [hadopt, hnear]
      · simp [hadopt]

/-- The result of the search over the host bridge and the list of bridges. -/
def bestParent (heap : Heap) (bridges : List Addr) (b : Addr) : Option Addr :=
  (hostBridge :: bridges).foldl (keepBest (MayAdopt heap b) (parentKey heap)) none

theorem findBestParent_eq {heap : Heap} {bridges : List Addr} (h : BridgeChain heap bridges)
    {fuel : Nat} (hfuel : bridges.length < fuel) (b : Addr) :
    findBestParent fuel heap b = .ok (bestParent heap bridges b) := by
  unfold findBestParent bestParent
  refine forEach_linked (fun _ c => (heap c).chain)
    (keepBest (MayAdopt heap b) (parentKey heap)) (fun _ => True) ?_
    (fun _ _ _ _ => trivial) (fun _ _ _ _ _ _ => rfl) trivial h.linked
    (by simpa using Nat.succ_le_of_lt hfuel)
  intro c _ best _
  rw [considerParent_eq_keepBest]

/-- The host bridge may adopt every other record: it claims all buses. -/
theorem mayAdopt_hostBridge {heap : Heap} (hsecondary : (heap hostBridge).pci.secondaryBus = 0)
    (hsubordinate : (heap hostBridge).pci.subordinateBus = pciMaxBus) {b : Addr}
    (hb : b ≠ hostBridge) : MayAdopt heap b hostBridge := by
  refine ⟨hb.symm, .inl rfl, ?_, ?_⟩
  · rw [hsecondary]
    exact UInt8.zero_le
  · rw [hsubordinate, UInt8.le_iff_toNat_le]
    exact Nat.lt_succ_iff.mp (heap b).busNumber.toNat_lt

theorem bestParent_spec {heap : Heap} (bridges : List Addr)
    (hsecondary : (heap hostBridge).pci.secondaryBus = 0)
    (hsubordinate : (heap hostBridge).pci.subordinateBus = pciMaxBus) {b : Addr}
    (hb : b ≠ hostBridge) :
    ∃ p, bestParent heap bridges b = some p ∧
      IsBest (MayAdopt heap b) (parentKey heap) (hostBridge :: bridges) p :=
  foldl_keepBest_cons (mayAdopt_hostBridge hsecondary hsubordinate hb)

/-- The search looks at nothing that adopting a child changes. -/
theorem SameRegisters.bestParent {heap heap' : Heap} (h : SameRegisters heap heap')
    (bridges : List Addr) (b : Addr) :
    bestParent heap' bridges b = bestParent heap bridges b := by
  have hadopt : ∀ c, MayAdopt heap' b c ↔ MayAdopt heap b c := by
    intro c
    unfold MayAdopt
    rw [h.segmentNumber, h.segmentNumber, h.busNumber, h.pci]
  have hkey : parentKey heap' = parentKey heap := by
    funext c
    rw [parentKey, parentKey, h.pci, h.pciDeviceID]
  have hstep : keepBest (MayAdopt heap' b) (parentKey heap') =
      keepBest (MayAdopt heap b) (parentKey heap) := by
    funext best c
    cases best <;> simp only [keepBest, hadopt, hkey]
  rw [PciMisc.bestParent, PciMisc.bestParent, hstep]

/-! ## The whole pass -/

/-- The records whose best parent is `p`, in array order. -/
def childrenOf (heap : Heap) (bridges array : List Addr) (p : Addr) : List Addr :=
  array.filter fun b => bestParent heap bridges b = some p

theorem childrenOf_append_singleton (heap : Heap) (bridges array : List Addr) {b p : Addr}
    (hp : bestParent heap bridges b = some p) :
    childrenOf heap bridges (array ++ [b]) =
      Function.update (childrenOf heap bridges array) p
        (childrenOf heap bridges array p ++ [b]) := by
  funext q
  by_cases hq : q = p
  · subst hq
    simp [childrenOf, hp]
  · rw [Function.update_of_ne hq]
    have hpq : p ≠ q := Ne.symm hq
    simp [childrenOf, hp, hpq]

/-- The state of the loop `Create a bridge tree` after the records of `done`. -/
structure TreeSoFar (heap₀ : Heap) (bridges done : List Addr) (heap : Heap) : Prop where
  registers : SameRegisters heap₀ heap
  chain : BridgeChain heap bridges
  children : ChildLists heap (childrenOf heap₀ bridges done)
  nextSibling : ∀ a, a ∉ done → (heap a).nextSibling = none
  parent : ∀ a, a ∉ done → (heap a).parent = (heap₀ a).parent
  nextID : (heap hostBridge).nextPciDeviceID = (heap₀ hostBridge).nextPciDeviceID

/-- One iteration gives the next record its best parent. -/
theorem TreeSoFar.step {heap₀ heap : Heap} {bridges done : List Addr} {b p : Addr}
    (h : TreeSoFar heap₀ bridges done heap) (hb : b ∉ done)
    (hp : bestParent heap₀ bridges b = some p) :
    TreeSoFar heap₀ bridges (done ++ [b]) (adoptChild heap p b) where
  registers := h.registers.trans (sameRegisters_adoptChild heap p b)
  chain := h.chain.adoptChild p b
  children := by
    rw [childrenOf_append_singleton heap₀ bridges done hp]
    refine h.children.adoptChild (fun q hmem => hb (List.mem_filter.mp hmem).1) ?_
    exact h.nextSibling b hb
  nextSibling := by
    intro a ha
    rw [adoptChild_nextSibling, if_neg, h.nextSibling a fun hmem => ha (by simp [hmem])]
    intro hlast
    rw [h.children.last] at hlast
    exact ha (by simp [(List.mem_filter.mp (List.mem_of_getLast? hlast)).1])
  parent := by
    intro a ha
    rw [adoptChild_parent, if_neg fun hab : a = b => ha (by simp [hab]),
      h.parent a fun hmem => ha (by simp [hmem])]
  nextID := (adoptChild_nextPciDeviceID heap p b hostBridge).trans h.nextID

/-- `Create a bridge tree` gives every record of the array its best parent. -/
theorem createBridgeTree_spec {heap : Heap} {bridges array : List Addr} {fuel : Nat}
    (hfuel : bridges.length < fuel) (hnodup : array.Nodup) (hhost : hostBridge ∉ array)
    (hsecondary : (heap hostBridge).pci.secondaryBus = 0)
    (hsubordinate : (heap hostBridge).pci.subordinateBus = pciMaxBus)
    (h : TreeSoFar heap bridges [] heap) :
    ∃ heap', createBridgeTree fuel heap array = .ok heap' ∧
      TreeSoFar heap bridges array heap' := by
  have hloop : ∀ (todo done : List Addr) (heap₁ : Heap), done ++ todo = array →
      TreeSoFar heap bridges done heap₁ →
      ∃ heap', createBridgeTree fuel heap₁ todo = .ok heap' ∧
        TreeSoFar heap bridges array heap' := by
    intro todo
    induction todo with
    | nil =>
        intro done heap₁ hdone hinv
        obtain rfl : done = array := by simpa using hdone
        exact ⟨heap₁, rfl, hinv⟩
    | cons b todo ih =>
        intro done heap₁ hdone hinv
        have hmem : b ∈ array := by simp [← hdone]
        have hb : b ∉ done := by
          rw [← hdone] at hnodup
          exact fun hmem => (List.nodup_append.mp hnodup).2.2 b hmem b (by simp) rfl
        obtain ⟨p, hp, -⟩ := bestParent_spec bridges hsecondary hsubordinate
          (b := b) (by rintro rfl; exact hhost hmem)
        obtain ⟨heap', hrun, hfinal⟩ := ih (done ++ [b]) (adoptChild heap₁ p b)
          (by simpa using hdone) (hinv.step hb hp)
        refine ⟨heap', ?_, hfinal⟩
        rw [← hrun]
        unfold createBridgeTree
        rw [List.foldlM_cons, findBestParent_eq hinv.chain hfuel, hinv.registers.bestParent, hp]
        rfl
  exact hloop array [] heap (by simp) h

/-- What `buildTree` returns, in terms of the records as they were collected. -/
structure Built (s : Collect) (array : List Addr) (heap : Heap) : Prop where
  perm : array.Perm s.pciDeviceArray
  registers : SameRegisters s.heap heap
  chain : BridgeChain heap (array.filter fun a => (s.heap a).pciType1)
  children : ChildLists heap
    (childrenOf s.heap (array.filter fun a => (s.heap a).pciType1) array)
  best : ∀ b ∈ array, ∃ p,
    bestParent s.heap (array.filter fun a => (s.heap a).pciType1) b = some p ∧
      IsBest (MayAdopt s.heap b) (parentKey s.heap)
        (hostBridge :: array.filter fun a => (s.heap a).pciType1) p
  unlisted : ∀ a, a ∉ array → (heap a).parent = none
  nextID : (heap hostBridge).nextPciDeviceID = (s.heap hostBridge).nextPciDeviceID

/-- The passes return for every collection, whichever permutation the sort makes. -/
theorem buildTree_built {s : Collect} (h : Collected s) {performQuickSort : PerformQuickSort}
    (hperm : (performQuickSort s.compare s.pciDeviceArray).Perm s.pciDeviceArray) {fuel : Nat}
    (hfuel : s.pciDeviceArray.length < fuel) :
    ∃ heap, buildTree performQuickSort fuel s =
        .ok (heap, performQuickSort s.compare s.pciDeviceArray) ∧
      Built s (performQuickSort s.compare s.pciDeviceArray) heap := by
  generalize harray : performQuickSort s.compare s.pciDeviceArray = array at hperm ⊢
  have hhost : hostBridge ∉ array := fun hmem =>
    absurd (h.mem _ (hperm.mem_iff.mp hmem)).1 (lt_irrefl _)
  have hnodup : array.Nodup := hperm.nodup_iff.mpr h.nodup
  obtain ⟨hchain, hsame⟩ := buildBridgeList_spec hnodup hhost
    (fun a => (h.unlinked a).chain) h.hostLastBridge
  have hregisters : SameRegisters s.heap (buildBridgeList s.heap array) :=
    hsame PciIoDevice.eraseLinks (fun _ _ => rfl) (fun _ _ => rfl)
  have hparent := hsame PciIoDevice.parent (fun _ _ => rfl) (fun _ _ => rfl)
  have hfirst := hsame PciIoDevice.firstChild (fun _ _ => rfl) (fun _ _ => rfl)
  have hlast := hsame PciIoDevice.lastChild (fun _ _ => rfl) (fun _ _ => rfl)
  have hnext := hsame PciIoDevice.nextSibling (fun _ _ => rfl) (fun _ _ => rfl)
  have hpci := hsame PciIoDevice.pci (fun _ _ => rfl) (fun _ _ => rfl)
  set bridges := array.filter fun a => (s.heap a).pciType1
  -- The list of bridges has been made, and no record has a child yet.
  have hstart : TreeSoFar (buildBridgeList s.heap array) bridges []
      (buildBridgeList s.heap array) :=
    { registers := .refl _
      chain := hchain
      children :=
        { linked := fun p => (hfirst p).trans (h.unlinked p).firstChild
          last := fun p => (hlast p).trans (h.unlinked p).lastChild
          owner := fun p b hb => by simp [childrenOf] at hb }
      nextSibling := fun a _ => (hnext a).trans (h.unlinked a).nextSibling
      parent := fun _ _ => rfl
      nextID := rfl }
  have hlength : bridges.length < fuel :=
    lt_of_le_of_lt ((List.length_filter_le _ _).trans_eq hperm.length_eq) hfuel
  obtain ⟨heap, hrun, htree⟩ := createBridgeTree_spec hlength hnodup hhost
    (by rw [hpci]; exact h.hostSecondary) (by rw [hpci]; exact h.hostSubordinate) hstart
  have hchildren : childrenOf (buildBridgeList s.heap array) bridges array =
      childrenOf s.heap bridges array := by
    funext p
    simp only [childrenOf, hregisters.bestParent]
  refine ⟨heap, ?_, ?_⟩
  · unfold buildTree
    rw [harray]
    simp only [hrun, Run.ok_bind]
  · refine ⟨hperm, hregisters.trans htree.registers, htree.chain, ?_, ?_, ?_, ?_⟩
    · exact hchildren ▸ htree.children
    · exact fun b hb => bestParent_spec bridges h.hostSecondary h.hostSubordinate
        (by rintro rfl; exact hhost hb)
    · intro a ha
      rw [htree.parent a ha, hparent]
      exact (h.unlinked a).parent
    · exact htree.nextID.trans
        (hsame PciIoDevice.nextPciDeviceID (fun _ _ => rfl) (fun _ _ => rfl) hostBridge)

/-! ## Trees and rings -/

/-- The records hang together as a tree below the host bridge: from each of them
the `Parent` pointers lead to the host bridge without meeting a record twice,
and each is on the child list of its parent, once, and on no other. -/
structure IsDeviceTree (heap : Heap) (devices : List Addr) : Prop where
  climbs : ∀ b ∈ devices, ∃ l, Linked (fun a => (heap a).parent) (some b) (l ++ [hostBridge]) ∧
    (l ++ [hostBridge]).Nodup
  parent : ∀ b ∈ devices, ∃ p ∈ hostBridge :: devices, (heap b).parent = some p
  lists : ∀ p ∈ hostBridge :: devices, ∃ l,
    Linked (fun a => (heap a).nextSibling) (heap p).firstChild l ∧
      ∀ b ∈ devices, l.count b = if (heap b).parent = some p then 1 else 0

/-- `c` is the bridge that the bus of `b` leads to: among the bridges of its
segment whose bus range contains the bus number of `b`, the one with the
greatest `SecondaryBus`, and then the greatest `PciDeviceID`. -/
structure NearestBridge (heap : Heap) (devices : List Addr) (b c : Addr) : Prop where
  source : b ∈ devices
  target : c ∈ devices
  isBridge : (heap c).pciType1 = true
  claims : c ≠ b ∧ (heap b).segmentNumber = (heap c).segmentNumber ∧
    (heap c).pci.secondaryBus ≤ (heap b).busNumber ∧
    (heap b).busNumber ≤ (heap c).pci.subordinateBus
  nearest : ∀ d ∈ devices, (heap d).pciType1 = true → d ≠ b →
    (heap b).segmentNumber = (heap d).segmentNumber →
    (heap d).pci.secondaryBus ≤ (heap b).busNumber →
    (heap b).busNumber ≤ (heap d).pci.subordinateBus →
    (heap d).pci.secondaryBus < (heap c).pci.secondaryBus ∨
      ((heap d).pci.secondaryBus = (heap c).pci.secondaryBus ∧
        (heap d).pciDeviceID ≤ (heap c).pciDeviceID)

/-- Some bridges claim each other's bus in a ring. -/
def BridgeRing (heap : Heap) (devices : List Addr) : Prop :=
  ∃ b, TransGen (NearestBridge heap devices) b b

theorem parentKey_le_iff (heap : Heap) (c d : Addr) :
    parentKey heap d ≤ parentKey heap c ↔
      (heap d).pci.secondaryBus < (heap c).pci.secondaryBus ∨
      ((heap d).pci.secondaryBus = (heap c).pci.secondaryBus ∧
        (heap d).pciDeviceID ≤ (heap c).pciDeviceID) := by
  rw [parentKey, parentKey, Prod.Lex.toLex_le_toLex, UInt8.lt_iff_toNat_lt,
    ← UInt8.toNat_inj]

/-- The records of a collection and the host bridge have different keys. -/
theorem Collected.parentKey_inj {s : Collect} (h : Collected s) {c d : Addr}
    (hc : c ∈ hostBridge :: s.pciDeviceArray) (hd : d ∈ hostBridge :: s.pciDeviceArray)
    (hkey : parentKey s.heap c = parentKey s.heap d) : c = d := by
  have hid : (s.heap c).pciDeviceID = (s.heap d).pciDeviceID :=
    congrArg (fun k => (ofLex k).2) hkey
  rcases List.mem_cons.mp hc with rfl | hc <;> rcases List.mem_cons.mp hd with rfl | hd
  · rfl
  · rw [h.hostID] at hid
    exact absurd hid (ne_of_lt (h.idPos d hd))
  · rw [h.hostID] at hid
    exact absurd hid.symm (ne_of_lt (h.idPos c hc))
  · exact h.idInj c hc d hd hid

section Built

variable {s : Collect} {array : List Addr} {heap : Heap}

/-- A record is on the child list of its best parent. -/
theorem Built.mem_childrenOf (h : Built s array heap) {b : Addr} (hb : b ∈ array) :
    ∃ p, b ∈ childrenOf s.heap (array.filter fun a => (s.heap a).pciType1) array p ∧
      (heap b).parent = some p ∧
      IsBest (MayAdopt s.heap b) (parentKey s.heap)
        (hostBridge :: array.filter fun a => (s.heap a).pciType1) p := by
  obtain ⟨p, hp, hbest⟩ := h.best b hb
  have hmem : b ∈ childrenOf s.heap (array.filter fun a => (s.heap a).pciType1) array p :=
    List.mem_filter.mpr ⟨hb, by simpa using hp⟩
  exact ⟨p, hmem, h.children.owner p b hmem, hbest⟩

/-- The `Parent` of a record is its nearest bridge, or else the host bridge. -/
theorem Built.parent_eq_iff (h : Built s array heap) (hs : Collected s) {b c : Addr}
    (hb : b ∈ array) (hc : c ≠ hostBridge) :
    (heap b).parent = some c ↔ NearestBridge s.heap s.pciDeviceArray b c := by
  obtain ⟨p, -, hp, hbest⟩ := h.mem_childrenOf hb
  rw [hp]
  constructor
  · intro hpc
    obtain rfl : p = c := Option.some.inj hpc
    have hmem := List.mem_filter.mp ((List.mem_cons.mp hbest.mem).resolve_left hc)
    obtain ⟨hne, hsegment, hlow, hhigh⟩ := hbest.isEligible
    refine ⟨h.perm.mem_iff.mp hb, h.perm.mem_iff.mp hmem.1, by simpa using hmem.2,
      ⟨hne, hsegment.resolve_left hc, hlow, hhigh⟩, ?_⟩
    intro d hd hbridge hdb hsegment' hlow' hhigh'
    rw [← parentKey_le_iff]
    refine hbest.greatest d ?_ ⟨hdb, .inr hsegment', hlow', hhigh'⟩
    exact List.mem_cons_of_mem _ (List.mem_filter.mpr ⟨h.perm.mem_iff.mpr hd, by simpa using hbridge⟩)
  · intro hnear
    obtain ⟨hne, hsegment, hlow, hhigh⟩ := hnear.claims
    have hbridge : c ∈ array.filter fun a => (s.heap a).pciType1 :=
      List.mem_filter.mpr ⟨h.perm.mem_iff.mpr hnear.target, by simpa using hnear.isBridge⟩
    have hbest' : IsBest (MayAdopt s.heap b) (parentKey s.heap)
        (hostBridge :: array.filter fun a => (s.heap a).pciType1) c := by
      refine ⟨List.mem_cons_of_mem _ hbridge, ⟨hne, .inr hsegment, hlow, hhigh⟩, ?_⟩
      intro d hd hadopt
      rw [parentKey_le_iff]
      rcases List.mem_cons.mp hd with rfl | hd
      · -- The host bridge has the smallest key of all.
        rw [hs.hostSecondary, hs.hostID, UInt8.lt_iff_toNat_lt, ← UInt8.toNat_inj]
        simp only [UInt8.toNat_zero]
        omega
      · have hdmem := List.mem_filter.mp hd
        obtain ⟨hdb, hdsegment, hdlow, hdhigh⟩ := hadopt
        have hdhost : d ≠ hostBridge :=
          ne_of_gt (hs.mem d (h.perm.mem_iff.mp hdmem.1)).1
        exact hnear.nearest d (h.perm.mem_iff.mp hdmem.1) (by simpa using hdmem.2) hdb
          (hdsegment.resolve_left hdhost) hdlow hdhigh
    refine congrArg some (hbest.unique hbest' fun x hx y hy hkey => ?_)
    have hin : ∀ z ∈ hostBridge :: array.filter fun a => (s.heap a).pciType1,
        z ∈ hostBridge :: s.pciDeviceArray := by
      intro z hz
      rcases List.mem_cons.mp hz with rfl | hz
      · simp
      · exact List.mem_cons_of_mem _ (h.perm.mem_iff.mp (List.mem_filter.mp hz).1)
    exact hs.parentKey_inj (hin x hx) (hin y hy) hkey

theorem Built.parent_mem (h : Built s array heap) {b : Addr} (hb : b ∈ array) :
    ∃ p ∈ hostBridge :: array, (heap b).parent = some p := by
  obtain ⟨p, -, hp, hbest⟩ := h.mem_childrenOf hb
  refine ⟨p, ?_, hp⟩
  rcases List.mem_cons.mp hbest.mem with rfl | hmem
  · simp
  · exact List.mem_cons_of_mem _ (List.mem_filter.mp hmem).1

/-- The `Parent` pointers have a ring exactly where the bridges have one. -/
theorem Built.onRing_iff (h : Built s array heap) (hs : Collected s) {b : Addr}
    (hb : b ∈ array) :
    OnRing (fun a => (heap a).parent) b ↔
      TransGen (NearestBridge s.heap s.pciDeviceArray) b b := by
  have hhost : hostBridge ∉ array := fun hmem =>
    absurd (hs.mem _ (h.perm.mem_iff.mp hmem)).1 (lt_irrefl _)
  have hstep : ∀ {x y}, x ∈ array → ParentStep (fun a => (heap a).parent) x y →
      y = hostBridge ∨ (y ∈ array ∧ NearestBridge s.heap s.pciDeviceArray x y) := by
    intro x y hx hxy
    by_cases hy : y = hostBridge
    · exact .inl hy
    · have hnear := (h.parent_eq_iff hs hx hy).mp hxy
      exact .inr ⟨h.perm.mem_iff.mpr hnear.target, hnear⟩
  constructor
  · intro hring
    have hpath : ∀ y, TransGen (ParentStep fun a => (heap a).parent) b y →
        y = hostBridge ∨
          (y ∈ array ∧ TransGen (NearestBridge s.heap s.pciDeviceArray) b y) := by
      intro y hy
      induction hy with
      | single hxy => exact (hstep hb hxy).imp_right fun ⟨hm, hn⟩ => ⟨hm, .single hn⟩
      | tail _ hxy ih =>
          rcases ih with rfl | ⟨hmem, hpath⟩
          · rw [ParentStep, h.unlisted hostBridge hhost] at hxy
            cases hxy
          · exact (hstep hmem hxy).imp_right fun ⟨hm, hn⟩ => ⟨hm, hpath.tail hn⟩
    rcases hpath b hring with rfl | ⟨-, hpath⟩
    · exact absurd hb hhost
    · exact hpath
  · refine TransGen.mono ?_ b b
    intro x y hxy
    have hy : y ≠ hostBridge := ne_of_gt (hs.mem y hxy.target).1
    exact (h.parent_eq_iff hs (h.perm.mem_iff.mpr hxy.source) hy).mpr hxy

theorem Built.isDeviceTree_iff (h : Built s array heap) (hs : Collected s) :
    IsDeviceTree heap array ↔ ¬ BridgeRing s.heap s.pciDeviceArray := by
  have hhost : hostBridge ∉ array := fun hmem =>
    absurd (hs.mem _ (h.perm.mem_iff.mp hmem)).1 (lt_irrefl _)
  have hnodup : array.Nodup := h.perm.nodup_iff.mpr hs.nodup
  have hclimbs := forall_climbsTo_iff (fun a => (heap a).parent)
    (List.finite_toSet array) (h.unlisted hostBridge hhost) fun b hb => by
      obtain ⟨p, hp, hparent⟩ := h.parent_mem hb
      exact ⟨p, hparent, List.mem_cons.mp hp⟩
  have hring : (∀ b ∈ {b | b ∈ array}, ¬ OnRing (fun a => (heap a).parent) b) ↔
      ¬ BridgeRing s.heap s.pciDeviceArray := by
    constructor
    · rintro hno ⟨b, hb⟩
      obtain ⟨c, hbc, -⟩ := TransGen.head'_iff.mp hb
      have hmem := h.perm.mem_iff.mpr hbc.source
      exact hno b hmem ((h.onRing_iff hs hmem).mpr hb)
    · exact fun hno b hb honRing => hno ⟨b, (h.onRing_iff hs hb).mp honRing⟩
  rw [← hring, ← hclimbs]
  constructor
  · intro htree b hb
    obtain ⟨l, hl, -⟩ := htree.climbs b hb
    exact ⟨l, hl⟩
  · intro hall
    refine ⟨fun b hb => ?_, fun b hb => h.parent_mem hb, fun p hp => ?_⟩
    · obtain ⟨l, hl⟩ := hall b hb
      exact ⟨l, hl, hl.nodup⟩
    · refine ⟨_, h.children.linked p, fun b hb => ?_⟩
      obtain ⟨q, hq, hparent, -⟩ := h.mem_childrenOf hb
      split
      · rename_i hp
        obtain rfl : q = p := Option.some.inj (hparent.symm.trans hp)
        exact List.count_eq_one_of_mem (h.children.linked q).nodup hq
      · rename_i hp
        exact List.count_eq_zero_of_not_mem fun hmem => hp (h.children.owner p b hmem)

end Built

/-- For everything `GetPciDevices` can collect, the passes return, and the
records form a tree below the host bridge if and only if no bridges claim each
other's bus in a ring. -/
theorem buildTree_isDeviceTree_iff {fuel₀ : Nat} {roots : List RootHandle}
    {handles : List PciIoHandle} {s : Collect} (hs : collect fuel₀ roots handles = .ok s)
    {performQuickSort : PerformQuickSort}
    (hperm : (performQuickSort s.compare s.pciDeviceArray).Perm s.pciDeviceArray) :
    ∃ fuel₁, ∀ fuel ≥ fuel₁, ∃ heap,
      buildTree performQuickSort fuel s =
        .ok (heap, performQuickSort s.compare s.pciDeviceArray) ∧
      (IsDeviceTree heap (performQuickSort s.compare s.pciDeviceArray) ↔
        ¬ BridgeRing s.heap s.pciDeviceArray) := by
  have hcollected := collected_collect hs
  refine ⟨s.pciDeviceArray.length + 1, fun fuel hfuel => ?_⟩
  obtain ⟨heap, hrun, hbuilt⟩ := buildTree_built hcollected hperm (Nat.lt_of_succ_le hfuel)
  exact ⟨heap, hrun, hbuilt.isDeviceTree_iff hcollected⟩

/-- A root bridge handle that converts without failure. -/
def goodRoot (handle segmentNumber : Nat) : RootHandle := ⟨.success, ⟨handle, segmentNumber⟩, true⟩

/-- A handle whose function answers every read with the same dwords. -/
def quietHandle (bus device : UInt8) (dwords : List UInt32) : PciIoHandle :=
  ⟨.success, 20, true, .success, 0, bus, device, 0, fun _ _ => (.success, dwords)⟩

/-- The header of a bridge from bus 0 to the buses 1 and 2. -/
def bridgeDwords : List UInt32 := [0, 0, 0, 0x10000, 0, 0, 0x20100]

/-- A bridge on bus 0, a bridge behind it, and a function behind both. -/
def nestedHandles : List PciIoHandle :=
  [quietHandle 0 3 bridgeDwords, quietHandle 1 4 [0, 0, 0, 0x10000, 0, 0, 0x20201],
    quietHandle 2 0 []]

/-- Two segments; the first one has the two bridges. -/
def nestedMachine : Collect :=
  match collect 0 [goodRoot 7 0, goodRoot 8 1] nestedHandles with
  | .ok s => s
  | .error _ => .init

theorem not_bridgeRing_nestedMachine :
    ¬ BridgeRing nestedMachine.heap nestedMachine.pciDeviceArray := by
  have hstep : ∀ b ∈ nestedMachine.pciDeviceArray, ∀ c ∈ nestedMachine.pciDeviceArray,
      (nestedMachine.heap c).pciType1 = true → c ≠ b ∧
        (nestedMachine.heap b).segmentNumber = (nestedMachine.heap c).segmentNumber ∧
        (nestedMachine.heap c).pci.secondaryBus ≤ (nestedMachine.heap b).busNumber ∧
        (nestedMachine.heap b).busNumber ≤ (nestedMachine.heap c).pci.subordinateBus →
      c < b := by decide +kernel
  rintro ⟨b, hb⟩
  -- The outer handles come first, so a step up leads to a smaller address.
  have hless : ∀ {a c}, TransGen (NearestBridge nestedMachine.heap nestedMachine.pciDeviceArray) a c →
      c < a := by
    intro a c h
    induction h with
    | single h => exact hstep _ h.source _ h.target h.isBridge h.claims
    | tail _ h ih => exact (hstep _ h.source _ h.target h.isBridge h.claims).trans ih
  exact absurd (hless hb) (lt_irrefl b)

theorem buildTree_isDeviceTree_iff_nestedMachine :
    ∃ fuel₁, ∀ fuel ≥ fuel₁, ∃ heap,
      buildTree sortByInsertion fuel nestedMachine = .ok (heap, [1, 3, 4, 5, 2]) ∧
      IsDeviceTree heap [1, 3, 4, 5, 2] := by
  have harray : sortByInsertion nestedMachine.compare nestedMachine.pciDeviceArray =
      [1, 3, 4, 5, 2] := by decide +kernel
  obtain ⟨fuel₁, htree⟩ := buildTree_isDeviceTree_iff
    (show collect 0 [goodRoot 7 0, goodRoot 8 1] nestedHandles = .ok nestedMachine from rfl)
    (sortByInsertion_perm nestedMachine.compare nestedMachine.pciDeviceArray)
  refine ⟨fuel₁, fun fuel hfuel => ?_⟩
  obtain ⟨heap, hrun, hiff⟩ := htree fuel hfuel
  rw [harray] at hrun hiff
  exact ⟨heap, hrun, hiff.mpr not_bridgeRing_nestedMachine⟩

/-- Two root bridges of one segment become each other's parent. -/
theorem buildTree_twoRoots_not_isDeviceTree :
    ∃ s heap, collect 0 [goodRoot 7 0, goodRoot 8 0] [] = .ok s ∧
      buildTree sortByInsertion 3 s = .ok (heap, [1, 2]) ∧ ¬ IsDeviceTree heap [1, 2] := by
  refine ⟨_, _, rfl, rfl, ?_⟩
  intro htree
  obtain ⟨l, hl, -⟩ := htree.climbs 1 (by simp)
  exact ClimbsTo.not_onRing rfl ⟨l, hl⟩ (.tail (b := 2) (.single rfl) rfl)

end PciMisc
end EfiApps
