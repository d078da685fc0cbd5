import EfiApps.Lib.RunningBest
import EfiApps.PciMisc.Collect
import Mathlib.Data.List.Sort
import Mathlib.Data.Prod.Lex

/-!
# Sorting, chaining and the bridge tree

The second half of `GetPciDevices`: sort `PciDeviceArray`, thread the bridges on
the list that starts at `HostBridge->Chain`, and give every record the best
parent among the host bridge and the bridges of that list.

The scan for the best parent is an instance of `keepBest`: the distance test and
the tie-break together prefer the greater pair of `SecondaryBus` and
`PciDeviceID`.
-/

namespace EfiApps
namespace PciMisc

/-- `ComparePciDevice`: segment, bus, device and function number, and the
`PciDeviceID` for records that share a location. -/
def comparePciDevice (a b : PciIoDevice) : Int :=
  if a.segmentNumber < b.segmentNumber then -1
  else if a.segmentNumber > b.segmentNumber then 1
  else if a.busNumber < b.busNumber then -1
  else if a.busNumber > b.busNumber then 1
  else if a.deviceNumber < b.deviceNumber then -1
  else if a.deviceNumber > b.deviceNumber then 1
  else if a.functionNumber < b.functionNumber then -1
  else if a.functionNumber > b.functionNumber then 1
  else if a.pciDeviceID < b.pciDeviceID then -1
  else if a.pciDeviceID > b.pciDeviceID then 1
  else 0

/-- `PerformQuickSort` belongs to `SortLib`: it is given the comparison and the
array. -/
abbrev PerformQuickSort := (Addr → Addr → Int) → List Addr → List Addr

/-- What `PerformQuickSort` promises about an array: the result is a permutation
of it in which no element compares greater than a later one. -/
structure Sorts (performQuickSort : PerformQuickSort) (compare : Addr → Addr → Int)
    (array : List Addr) : Prop where
  perm : (performQuickSort compare array).Perm array
  sorted : (performQuickSort compare array).Pairwise fun a b => compare a b ≤ 0

/-- A `PerformQuickSort` to run the passes with. -/
def sortByInsertion : PerformQuickSort := fun compare array =>
  array.insertionSort fun a b => compare a b ≤ 0

theorem sortByInsertion_perm (compare : Addr → Addr → Int) (array : List Addr) :
    (sortByInsertion compare array).Perm array :=
  List.perm_insertionSort _ _

/-- `*HostBridge->LastBridge = PciIoDevice; HostBridge->LastBridge =
&PciIoDevice->Chain`. -/
def linkBridge (heap : Heap) (a : Addr) : Heap :=
  let heap := heap.modify (heap hostBridge).lastBridge (.setChain (some a))
  heap.modify hostBridge (.setLastBridge a)

/-- `*HostBridge->LastBridge = NULL`. -/
def endBridges (heap : Heap) : Heap :=
  heap.modify (heap hostBridge).lastBridge (.setChain none)

/-- The loop `Build list of bridges`. -/
def buildBridgeList (heap : Heap) (array : List Addr) : Heap :=
  endBridges (array.foldl (fun heap a => if (heap a).pciType1 then linkBridge heap a else heap) heap)

/-- `b->BusNumber - c->PciType1->Bridge.SecondaryBus`, in `int` arithmetic. -/
def busDistance (heap : Heap) (b c : Addr) : Int :=
  ((heap b).busNumber.toNat : Int) - (heap c).pci.secondaryBus.toNat

/-- The part of the test in `Create a bridge tree` that does not look at the
best parent so far: `c` may be the parent of `b`. -/
def MayAdopt (heap : Heap) (b c : Addr) : Prop :=
  c ≠ b ∧ (c = hostBridge ∨ (heap b).segmentNumber = (heap c).segmentNumber) ∧
    (heap b).busNumber ≥ (heap c).pci.secondaryBus ∧
    (heap b).busNumber ≤ (heap c).pci.subordinateBus

instance (heap : Heap) (b : Addr) : DecidablePred (MayAdopt heap b) := fun _ =>
  inferInstanceAs (Decidable (_ ∧ _ ∧ _ ∧ _))

/-- One iteration of the search for `BestParent`. -/
def considerParent (heap : Heap) (b c : Addr) (bestParent : Option Addr) : Option Addr :=
  if MayAdopt heap b c then
    match bestParent with
    | none => some c
    | some p =>
        if busDistance heap b c < busDistance heap b p then some c
        else if busDistance heap b c = busDistance heap b p ∧
            (heap c).pciDeviceID > (heap p).pciDeviceID then some c
        else some p
  else bestParent

/-- The search for `BestParent`: the host bridge and then the list of bridges. -/
def findBestParent (fuel : Nat) (heap : Heap) (b : Addr) : Run (Option Addr) :=
  forEach (fun _ c => (heap c).chain) (fun c best => .ok (considerParent heap b c best)) fuel
    (some hostBridge) none

/-- Make `b` the last child of `p`. -/
def adoptChild (heap : Heap) (p b : Addr) : Heap :=
  let heap := heap.modify b (.setParent (some p))
  let heap := if (heap p).firstChild.isNone then heap.modify p (.setFirstChild (some b)) else heap
  let heap := match (heap p).lastChild with
    | some l => heap.modify l (.setNextSibling (some b))
    | none => heap
  heap.modify p (.setLastChild (some b))

/-- The loop `Create a bridge tree`. -/
def createBridgeTree (fuel : Nat) (heap : Heap) (array : List Addr) : Run Heap :=
  array.foldlM (fun heap b => do
    match ← findBestParent fuel heap b with
    | some p => .ok (adoptChild heap p b)
    | none => .ok heap) heap

/-- `ComparePciDevice` on two elements of the array. -/
def Collect.compare (s : Collect) (a b : Addr) : Int := comparePciDevice (s.heap a) (s.heap b)

/-- Sort the array, build the list of bridges and create the bridge tree. -/
def buildTree (performQuickSort : PerformQuickSort) (fuel : Nat) (s : Collect) :
    Run (Heap × List Addr) := do
  let array := performQuickSort s.compare s.pciDeviceArray
  let heap ← createBridgeTree fuel (buildBridgeList s.heap array) array
  .ok (heap, array)

/-! ## What the passes leave alone -/

/-- Two heaps agree on everything but the links between records. -/
def SameRegisters (heap heap' : Heap) : Prop :=
  ∀ a, (heap' a).eraseLinks = (heap a).eraseLinks

namespace SameRegisters

theorem refl (heap : Heap) : SameRegisters heap heap := fun _ => rfl

theorem trans {heap₁ heap₂ heap₃ : Heap} (h : SameRegisters heap₁ heap₂)
    (h' : SameRegisters heap₂ heap₃) : SameRegisters heap₁ heap₃ :=
  fun a => (h' a).trans (h a)

/-- A change of link fields at one address. -/
theorem modify {heap₀ heap : Heap} (h : SameRegisters heap₀ heap) (a : Addr)
    {f : PciIoDevice → PciIoDevice} (hf : ∀ d, (f d).eraseLinks = d.eraseLinks) :
    SameRegisters heap₀ (heap.modify a f) :=
  fun b => (Heap.modify_field _ heap a b hf).trans (h b)

variable {heap heap' : Heap} (h : SameRegisters heap heap') (a : Addr)
include h

theorem pci : (heap' a).pci = (heap a).pci := (congrArg PciIoDevice.pci (h a) :)

theorem pciType1 : (heap' a).pciType1 = (heap a).pciType1 :=
  (congrArg PciIoDevice.pciType1 (h a) :)

theorem pciDeviceID : (heap' a).pciDeviceID = (heap a).pciDeviceID :=
  (congrArg PciIoDevice.pciDeviceID (h a) :)

theorem segmentNumber : (heap' a).segmentNumber = (heap a).segmentNumber :=
  (congrArg PciIoDevice.segmentNumber (h a) :)

theorem busNumber : (heap' a).busNumber = (heap a).busNumber :=
  (congrArg PciIoDevice.busNumber (h a) :)

theorem deviceNumber : (heap' a).deviceNumber = (heap a).deviceNumber :=
  (congrArg PciIoDevice.deviceNumber (h a) :)

theorem functionNumber : (heap' a).functionNumber = (heap a).functionNumber :=
  (congrArg PciIoDevice.functionNumber (h a) :)

theorem isSegment : (heap' a).isSegment = (heap a).isSegment :=
  (congrArg PciIoDevice.isSegment (h a) :)

end SameRegisters

theorem sameRegisters_linkBridge (heap : Heap) (a : Addr) :
    SameRegisters heap (linkBridge heap a) :=
  ((SameRegisters.refl heap).modify _ (by simp)).modify _ (by simp)

theorem sameRegisters_adoptChild (heap : Heap) (p b : Addr) :
    SameRegisters heap (adoptChild heap p b) := by
  have hparent : SameRegisters heap (heap.modify b (.setParent (some p))) :=
    (SameRegisters.refl heap).modify _ (by simp)
  unfold adoptChild
  dsimp only
  refine SameRegisters.modify ?_ _ (by simp)
  split <;> split
  · exact (hparent.modify _ (by simp)).modify _ (by simp)
  · exact hparent.modify _ (by simp)
  · exact hparent.modify _ (by simp)
  · exact hparent

/-! ## The list of bridges -/

/-- `HostBridge->Chain` is a NULL-terminated list of the given bridges, and
`LastBridge` addresses the `Chain` field of its last element. -/
structure BridgeChain (heap : Heap) (bridges : List Addr) : Prop where
  linked : Linked (fun a => (heap a).chain) (some hostBridge) (hostBridge :: bridges)
  last : (hostBridge :: bridges).getLast? = some (heap hostBridge).lastBridge

theorem linkBridge_chain (heap : Heap) (a : Addr) :
    (fun b => (linkBridge heap a b).chain) =
      Function.update (fun b => (heap b).chain) (heap hostBridge).lastBridge (some a) := by
  funext b
  unfold linkBridge
  rw [Heap.modify_field PciIoDevice.chain _ _ _ (by simp), Heap.modify_apply,
    Function.update_apply]
  split <;> simp

theorem linkBridge_lastBridge (heap : Heap) (a : Addr) :
    (linkBridge heap a hostBridge).lastBridge = a := by
  simp [linkBridge]

/-- Linking a bridge that is on no list appends it to the list of bridges. -/
theorem BridgeChain.linkBridge {heap : Heap} {bridges : List Addr} (h : BridgeChain heap bridges)
    {a : Addr} (ha : a ∉ hostBridge :: bridges) (hchain : (heap a).chain = none) :
    BridgeChain (linkBridge heap a) (bridges ++ [a]) := by
  obtain ⟨init, hinit⟩ := List.getLast?_eq_some_iff.mp h.last
  refine ⟨?_, ?_⟩
  · have hlinked := h.linked
    rw [hinit] at hlinked ha
    have happend := hlinked.append ha hchain
    rw [← linkBridge_chain] at happend
    have hlist : hostBridge :: (bridges ++ [a]) = init ++ [(heap hostBridge).lastBridge, a] := by
      rw [← List.cons_append, hinit]
      simp
    rwa [hlist]
  · rw [linkBridge_lastBridge, ← List.cons_append, List.getLast?_concat]

theorem linkBridge_field {β : Type _} (field : PciIoDevice → β) (heap : Heap) (a b : Addr)
    (hchain : ∀ d p, field (.setChain p d) = field d)
    (hlast : ∀ d c, field (.setLastBridge c d) = field d) :
    field (linkBridge heap a b) = field (heap b) := by
  unfold linkBridge
  rw [Heap.modify_field field _ _ _ (hlast · a), Heap.modify_field field _ _ _ (hchain · _)]

/-- Terminating the list of bridges changes nothing: its last `Chain` is `NULL`. -/
theorem BridgeChain.endBridges {heap : Heap} {bridges : List Addr} (h : BridgeChain heap bridges) :
    endBridges heap = heap := by
  obtain ⟨init, hinit⟩ := List.getLast?_eq_some_iff.mp h.last
  have hlinked := h.linked
  rw [hinit] at hlinked
  have hend : (heap (heap hostBridge).lastBridge).chain = none := hlinked.drop
  funext b
  rw [PciMisc.endBridges, Heap.modify_apply]
  split
  · rename_i hb
    subst hb
    rw [PciIoDevice.setChain, ← hend]
  · rfl

/-- `Build list of bridges` lists the bridges of the array in array order, and
touches no field but `Chain` and `LastBridge`. -/
theorem buildBridgeList_spec {heap : Heap} {array : List Addr} (hnodup : array.Nodup)
    (hhost : hostBridge ∉ array) (hchain : ∀ a, (heap a).chain = none)
    (hlast : (heap hostBridge).lastBridge = hostBridge) :
    BridgeChain (buildBridgeList heap array) (array.filter fun a => (heap a).pciType1) ∧
      ∀ {β : Type} (field : PciIoDevice → β), (∀ d p, field (.setChain p d) = field d) →
        (∀ d c, field (.setLastBridge c d) = field d) →
        ∀ a, field (buildBridgeList heap array a) = field (heap a) := by
  -- After the records of `done`, the chain holds the bridges among them.
  have hloop : ∀ (todo done : List Addr) (heap' : Heap), done ++ todo = array →
      BridgeChain heap' (done.filter fun a => (heap a).pciType1) →
      (∀ a, a ∉ hostBridge :: done → (heap' a).chain = none) →
      (∀ {β : Type} (field : PciIoDevice → β), (∀ d p, field (.setChain p d) = field d) →
        (∀ d c, field (.setLastBridge c d) = field d) → ∀ a, field (heap' a) = field (heap a)) →
      let heap'' := todo.foldl
        (fun heap a => if (heap a).pciType1 then linkBridge heap a else heap) heap'
      BridgeChain heap'' (array.filter fun a => (heap a).pciType1) ∧
        ∀ {β : Type} (field : PciIoDevice → β), (∀ d p, field (.setChain p d) = field d) →
          (∀ d c, field (.setLastBridge c d) = field d) →
          ∀ a, field (heap'' a) = field (heap a) := by
    intro todo
    induction todo with
    | nil =>
        intro done heap' hdone hbridges _ hsame
        obtain rfl : done = array := by simpa using hdone
        exact ⟨hbridges, hsame⟩
    | cons a todo ih =>
        intro done heap' hdone hbridges hfree hsame
        have ha : a ∉ hostBridge :: done := by
          rw [← hdone] at hnodup hhost
          have hadone := (List.nodup_append.mp hnodup).2.2
          intro hmem
          rcases List.mem_cons.mp hmem with rfl | hmem
          · exact hhost (by simp)
          · exact hadone a hmem a (by simp) rfl
        rw [List.foldl_cons, hsame PciIoDevice.pciType1 (fun _ _ => rfl) (fun _ _ => rfl)]
        refine ih (done ++ [a]) _ (by simpa using hdone) ?_ ?_ ?_
        all_goals
          cases htype : (heap a).pciType1
          all_goals simp only [Bool.false_eq_true, if_false, if_true]
        · simpa [htype] using hbridges
        · have hnot : a ∉ hostBridge :: done.filter fun a => (heap a).pciType1 := by
            intro hmem
            rcases List.mem_cons.mp hmem with rfl | hmem
            · exact ha (by simp)
            · exact ha (List.mem_cons_of_mem _ (List.mem_filter.mp hmem).1)
          simpa [htype] using hbridges.linkBridge hnot (hfree a ha)
        · exact fun b hb => hfree b (by simp at hb ⊢; tauto)
        · intro b hb
          have hchain' := congrFun (linkBridge_chain heap' a) b
          rw [Function.update_of_ne] at hchain'
          · exact hchain'.trans (hfree b (by simp at hb ⊢; tauto))
          · -- The end of the chain is the host bridge or a bridge already seen.
            rintro rfl
            have hmem := List.mem_of_getLast? hbridges.last
            simp only [List.mem_cons, List.mem_filter, List.mem_append] at hmem hb
            tauto
        · exact hsame
        · intro β field hc hl b
          rw [linkBridge_field field _ _ _ hc hl]
          exact hsame field hc hl b
  obtain ⟨hbridges, hsame⟩ := hloop array [] heap (by simp)
    ⟨by simp [hchain], by simp [hlast]⟩ (fun a _ => hchain a) (fun field _ _ a => rfl)
  unfold buildBridgeList
  rw [hbridges.endBridges]
  exact ⟨hbridges, hsame⟩

/-! ## The child lists -/

/-- The `FirstChild`/`NextSibling` list of every record, ended by its
`LastChild` and made of records whose `Parent` it is. -/
structure ChildLists (heap : Heap) (children : Addr → List Addr) : Prop where
  linked : ∀ p, Linked (fun a => (heap a).nextSibling) (heap p).firstChild (children p)
  last : ∀ p, (heap p).lastChild = (children p).getLast?
  owner : ∀ p, ∀ b ∈ children p, (heap b).parent = some p

theorem ChildLists.firstChild {heap : Heap} {children : Addr → List Addr}
    (h : ChildLists heap children) (p : Addr) : (heap p).firstChild = (children p).head? := by
  have hlinked := h.linked p
  cases hl : children p with
  | nil => simpa [hl] using hlinked
  | cons a l =>
      rw [hl] at hlinked
      exact hlinked.1

/-- No record is in two child lists. -/
theorem ChildLists.parent_unique {heap : Heap} {children : Addr → List Addr}
    (h : ChildLists heap children) {p q b : Addr} (hp : b ∈ children p) (hq : b ∈ children q) :
    p = q :=
  Option.some.inj ((h.owner p b hp).symm.trans (h.owner q b hq))

section adoptChild

variable (heap : Heap) (p b c : Addr)

/-- `adoptChild` at one address: four independent stores. -/
theorem adoptChild_apply :
    adoptChild heap p b c =
      (if c = p then PciIoDevice.setLastChild (some b) else id)
        ((if (heap p).lastChild = some c then PciIoDevice.setNextSibling (some b) else id)
          ((if c = p ∧ (heap p).firstChild = none then
              PciIoDevice.setFirstChild (some b) else id)
            ((if c = b then PciIoDevice.setParent (some p) else id) (heap c)))) := by
  have hfirst : (heap.modify b (.setParent (some p)) p).firstChild = (heap p).firstChild :=
    Heap.modify_field PciIoDevice.firstChild _ _ _ (by simp)
  have hlast : (heap.modify b (.setParent (some p)) p).lastChild = (heap p).lastChild :=
    Heap.modify_field PciIoDevice.lastChild _ _ _ (by simp)
  have hlast' : (Heap.modify (heap.modify b (.setParent (some p))) p
      (.setFirstChild (some b)) p).lastChild = (heap p).lastChild := by
    rw [Heap.modify_field PciIoDevice.lastChild _ _ _ (by simp), hlast]
  unfold adoptChild
  rw [hfirst]
  cases hf : (heap p).firstChild <;> cases hl : (heap p).lastChild <;>
    simp only [Option.isNone_none, Option.isNone_some, if_true, hlast, hlast', hl,
      Bool.false_eq_true, if_false, reduceCtorEq, and_true, and_false, Option.some.injEq] <;>
    simp only [Heap.modify_apply, eq_comm (b := c)] <;>
    split_ifs <;> rfl

theorem adoptChild_parent :
    (adoptChild heap p b c).parent = if c = b then some p else (heap c).parent := by
  rw [adoptChild_apply]
  split_ifs <;> simp

theorem adoptChild_firstChild :
    (adoptChild heap p b c).firstChild =
      if c = p ∧ (heap p).firstChild = none then some b else (heap c).firstChild := by
  rw [adoptChild_apply]
  split_ifs <;> simp

theorem adoptChild_lastChild :
    (adoptChild heap p b c).lastChild = if c = p then some b else (heap c).lastChild := by
  rw [adoptChild_apply]
  split_ifs <;> simp

theorem adoptChild_nextSibling :
    (adoptChild heap p b c).nextSibling =
      if (heap p).lastChild = some c then some b else (heap c).nextSibling := by
  rw [adoptChild_apply]
  split_ifs <;> simp

theorem adoptChild_chain : (adoptChild heap p b c).chain = (heap c).chain := by
  rw [adoptChild_apply]
  split_ifs <;> rfl

theorem adoptChild_lastBridge :
    (adoptChild heap p b c).lastBridge = (heap c).lastBridge := by
  rw [adoptChild_apply]
  split_ifs <;> rfl

theorem adoptChild_nextPciDeviceID :
    (adoptChild heap p b c).nextPciDeviceID = (heap c).nextPciDeviceID := by
  rw [adoptChild_apply]
  split_ifs <;> rfl

end adoptChild

/-- Adopting a child leaves the list of bridges alone. -/
theorem BridgeChain.adoptChild {heap : Heap} {bridges : List Addr} (h : BridgeChain heap bridges)
    (p b : Addr) : BridgeChain (adoptChild heap p b) bridges where
  linked := h.linked.congr fun a _ => adoptChild_chain heap p b a
  last := by rw [adoptChild_lastBridge]; exact h.last

/-- Adopting a record that is in no child list appends it to its parent's. -/
theorem ChildLists.adoptChild {heap : Heap} {children : Addr → List Addr}
    (h : ChildLists heap children) {p b : Addr} (hb : ∀ q, b ∉ children q)
    (hnext : (heap b).nextSibling = none) :
    ChildLists (adoptChild heap p b) (Function.update children p (children p ++ [b])) := by
  refine ⟨fun q => ?_, fun q => ?_, fun q c hc => ?_⟩
  · by_cases hq : q = p
    · subst hq
      rw [Function.update_self]
      cases hl : (children q).getLast? with
      | none =>
          have hnil : children q = [] := List.getLast?_eq_none_iff.mp hl
          have hfirst : (heap q).firstChild = none := by rw [h.firstChild, hnil]; rfl
          have hlast : (heap q).lastChild = none := by rw [h.last, hl]
          simp [hnil, adoptChild_firstChild, adoptChild_nextSibling, hfirst, hlast, hnext]
      | some l =>
          obtain ⟨init, hinit⟩ := List.getLast?_eq_some_iff.mp hl
          have hlast : (heap q).lastChild = some l := by rw [h.last, hl]
          have hfirst : (PciMisc.adoptChild heap q b q).firstChild = (heap q).firstChild := by
            rw [adoptChild_firstChild, if_neg]
            rw [h.firstChild, hinit]
            simp
          have hsibling : (fun c => (PciMisc.adoptChild heap q b c).nextSibling) =
              Function.update (fun c => (heap c).nextSibling) l (some b) := by
            funext c
            simp [adoptChild_nextSibling, hlast, Function.update_apply, eq_comm]
          have hlinked := h.linked q
          have hbq := hb q
          rw [hinit] at hlinked hbq ⊢
          rw [hfirst, hsibling, List.append_assoc]
          exact hlinked.append hbq hnext
    · rw [Function.update_of_ne hq, adoptChild_firstChild, if_neg (by simp [hq])]
      refine (h.linked q).congr fun c hc => ?_
      rw [adoptChild_nextSibling, if_neg]
      -- The last child of `p` is no child of `q`.
      intro hlast
      rw [h.last] at hlast
      exact hq (h.parent_unique hc (List.mem_of_getLast? hlast))
  · by_cases hq : q = p
    · subst hq
      simp [adoptChild_lastChild]
    · rw [Function.update_of_ne hq, adoptChild_lastChild, if_neg hq, h.last]
  · rw [adoptChild_parent]
    by_cases hq : q = p
    · subst hq
      rw [Function.update_self] at hc
      rcases List.mem_append.mp hc with hold | hnew
      · rw [if_neg fun hcb : c = b => hb q (hcb ▸ hold), h.owner q c hold]
      · rw [if_pos (by simpa using hnew)]
    · rw [Function.update_of_ne hq] at hc
      rw [if_neg fun hcb : c = b => hb q (hcb ▸ hc), h.owner q c hc]

end PciMisc
end EfiApps
